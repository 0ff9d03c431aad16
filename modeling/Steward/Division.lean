import Steward.Loop.Shift
import Steward.Reconcile
import Steward.Site
import Steward.Watch

/-!
# Divisions

A division looks after the records of one kind: a watch feeds the keys of changed records to a loop,
whose workers reconcile them.  The simulated backend answers a manager call after its latency; a
worker whose call takes longer than its budget goes on without an answer when the budget is used up.
-/

namespace Steward

/-- A reconcile that waits for a manager call to end. -/
structure Suspended (σ : Type) where
  call : Call
  id : String
  /-- The call ends within its budget. -/
  inTime : Bool
  resume : call.Ending → Procedure σ (Except Fault Outcome)

namespace Suspended

variable {kind : Kind}

/-- Carries a reconcile on until it ends or has to wait. -/
def carryOn (budget : Nat) :
    Procedure kind.Spec (Except Fault Outcome) → Site → Progress (Suspended kind.Spec) × Site
  | .done outcome, site => (.finished (outcome.map Outcome.requeueAfter), site)
  | .ask query resume, site =>
      let (answer, site) := Site.answer kind query site
      carryOn budget (resume answer) site
  | .report event next, site => carryOn budget next (site.note event)
  | .call c id _ resume, site =>
      let latency := site.backend.latency
      if latency = 0 then
        let (answer, site) := site.call c id
        carryOn budget (resume (some answer)) site
      else
        (.waiting (site.clock + min latency budget)
          { call := c, id, inTime := decide (latency ≤ budget), resume }, site)

/-- Goes on after the call has ended. -/
def goOn (budget : Nat) (s : Suspended kind.Spec) (site : Site) :
    Progress (Suspended kind.Spec) × Site :=
  if s.inTime then
    let (answer, site) := site.call s.call s.id
    carryOn budget (s.resume (some answer)) site
  else carryOn budget (s.resume none) site

end Suspended

/-- How the workers of a kind reconcile records. -/
def Controller.work {kind : Kind} (c : Controller kind.Spec) :
    Work (Suspended kind.Spec) Site where
  begin key site := Suspended.carryOn c.intervals.operationTimeout (c.reconcile key).run site
  resume s site := s.goOn c.intervals.operationTimeout site

structure Division (kind : Kind) where
  controller : Controller kind.Spec
  shift : Shift (Suspended kind.Spec)
  watch : Watch := {}

namespace Division

variable {kind : Kind}

def start (controller : Controller kind.Spec) (settings : LoopSettings) : Division kind :=
  { controller, shift := .start settings }

/-- The watch reads, or else the shift moves on. -/
def step? (d : Division kind) (site : Site) : Option (Division kind × Site) :=
  match d.watch.step? (site.store kind).feed false d.shift.loop.floor with
  | some (watch, floor) =>
      some ({ d with watch, shift := { d.shift with loop := { d.shift.loop with floor } } }, site)
  | none =>
      (d.shift.step? d.controller.work site.clock site).map fun (shift, site) =>
        ({ d with shift }, site)

def due? (d : Division kind) : Option Nat := d.shift.due?

/-- Stops the loop and ends the watch. -/
def stop (d : Division kind) : Division kind :=
  { d with shift := d.shift.stop, watch := { d.watch with ended := true } }

def hasEnded (d : Division kind) : Bool := d.shift.loop.ending?.isSome

end Division

end Steward
