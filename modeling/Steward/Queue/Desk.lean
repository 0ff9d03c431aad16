import Steward.Queue.Floor
import Steward.Timeline

/-!
# The desk

A floor where workers come once, wait for one key each, and leave with it.  The desk keeps a list of
those who left: each with a key, or without one because the queue was closed.
-/

namespace Steward

structure Desk (ω : Type) where
  floor : Floor ω := {}
  clock : Nat := 0
  /-- The workers that left so far, and the keys they took along. -/
  left : Array (ω × Option Key) := #[]

namespace Desk

variable {ω : Type}

/-- Lets a worker that is at the desk ask for its key. -/
def serve (d : Desk ω) (w : ω) : Desk ω :=
  match d.floor.get w with
  | (.key key, floor) => { d with floor, left := d.left.push (w, some key) }
  | (.dismissed, floor) => { d with floor, left := d.left.push (w, none) }
  | (.asleep, floor) => { d with floor }

/-- A timer that is due runs out, or else a worker that was woken asks again. -/
def step? (d : Desk ω) : Option (Desk ω) :=
  match d.floor.expire? d.clock with
  | some floor => some { d with floor }
  | none =>
      d.floor.signal.popWoken?.map fun (w, signal) =>
        { d with floor := { d.floor with signal } }.serve w

/-- How many steps can be taken at a floor before it comes to rest, at most: each timer runs out
once, and may wake one worker more. -/
def burden (f : Floor ω) : Nat := 2 * f.queue.timers.length + f.signal.woken.length

def timeline : Timeline (Desk ω) where
  clock := clock
  setClock d clock := { d with clock }
  step? := step?
  due? d := d.floor.queue.due?
  budget d := burden d.floor

/-! ## What can be asked of a desk -/

def settle (d : Desk ω) : Desk ω := timeline.settle d

def add (d : Desk ω) (key : Key) : Desk ω := { d with floor := d.floor.add key }.settle

def addAfter (d : Desk ω) (delay : Nat) (key : Key) : Desk ω :=
  { d with floor := d.floor.addAfter d.clock delay key }.settle

def done (d : Desk ω) (key : Key) : Desk ω := { d with floor := d.floor.done key }.settle

def close (d : Desk ω) : Desk ω := { d with floor := d.floor.close }.settle

/-- A worker arrives. -/
def wait (d : Desk ω) (w : ω) : Desk ω := (d.serve w).settle

/-- Takes a key if one is there. -/
def look (d : Desk ω) : HandOut × Desk ω :=
  let (found, floor) := d.floor.look
  (found, { d with floor }.settle)

def advance (d : Desk ω) (ms : Nat) : Desk ω := timeline.advance ms d

end Desk

end Steward
