import Steward.Intervals

/-!
# Timelines

Virtual time.  A world has a clock, timers, and things that can happen at the instant its clock
shows.  Everything that can happen at an instant happens before the clock moves on, and the clock
moves from one timer to the next.  A step budget bounds what is let happen at one instant, so that a
world that never comes to rest is left as it is when the budget is used up.  A world that always
comes to rest may say itself how many steps that takes.
-/

namespace Steward

/-- How many steps an instant may take, unless a timeline says otherwise. -/
def Timeline.stepBudget : Nat := 1000000000000

structure Timeline (ω : Type) where
  clock : ω → Nat
  setClock : ω → Nat → ω
  /-- The next thing that can happen at once. -/
  step? : ω → Option ω
  /-- The instant of the next timer. -/
  due? : ω → Option Nat
  /-- How many steps are let happen at this instant. -/
  budget : ω → Nat := fun _ => Timeline.stepBudget

namespace Timeline

variable {ω : Type}

/-- Lets at most `budget` things happen at this instant. -/
def settleWithin (tl : Timeline ω) : Nat → ω → ω
  | 0, w => w
  | budget + 1, w =>
      match tl.step? w with
      | none => w
      | some next => tl.settleWithin budget next

def settle (tl : Timeline ω) (w : ω) : ω := tl.settleWithin (tl.budget w) w

/-- Goes from timer to timer, from the instant `now` on and up to `target`. -/
def visit (tl : Timeline ω) (target now : Nat) (w : ω) : ω :=
  match tl.due? w with
  | none => w
  | some due =>
      if _ahead : now < due ∧ due ≤ target then
        tl.visit target due (tl.settle (tl.setClock w due))
      else w
termination_by target - now

/-- Lets time pass until the clock shows `target`. -/
def advanceTo (tl : Timeline ω) (target : Nat) (w : ω) : ω :=
  tl.setClock (tl.visit target (tl.clock w) (tl.settle w)) target

def advance (tl : Timeline ω) (ms : Nat) (w : ω) : ω :=
  tl.advanceTo (tl.clock w + ms) w

/-- Goes from timer to timer until a condition holds, at most `budget` times. -/
def runWithin (tl : Timeline ω) (condition : ω → Bool) : Nat → ω → ω
  | 0, w => w
  | budget + 1, w =>
      if condition w then w
      else
        match tl.due? w with
        | none => w
        | some due => tl.runWithin condition budget (tl.settle (tl.setClock w due))

/-- Goes from timer to timer until a condition holds. -/
def runUntil (tl : Timeline ω) (condition : ω → Bool) (w : ω) : ω :=
  tl.runWithin condition stepBudget w

end Timeline

end Steward
