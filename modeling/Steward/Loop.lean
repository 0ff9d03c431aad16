import Steward.Loop.Settings
import Steward.Queue.Floor

/-!
# The reconciliation loop

A loop keeps a number of workers at a work queue.  A worker that comes back with a key says how the
reconcile went: a reconcile that succeeded may ask for another look after a while and clears the
key's failures, a stale write is done again at once, and after any other fault the key waits longer
the more often it failed in a row.  Only then is the key given back, so nobody else holds it until
its next look has been arranged.  Workers leave when the queue is closed.
-/

namespace Steward

/-- How a reconcile ended: when to look again, if at all, or why it was cut short. -/
abbrev Look : Type := Except Fault (Option Nat)

structure Loop where
  settings : LoopSettings := {}
  floor : Floor Nat := {}
  /-- How often each key failed in a row. -/
  failures : KeyMap Nat := ∅
  /-- The workers that left. -/
  gone : List Nat := []
  deriving DecidableEq

namespace Loop

/-- The most failures that are counted: the largest unsigned word of 32 bits. -/
def failureLimit : Nat := 4294967295

def failureCount (l : Loop) (key : Key) : Nat := l.failures[key]?.getD 0

/-- Lets a worker ask for a key. -/
def ask (l : Loop) (worker : Nat) : HandOut × Loop :=
  match l.floor.get worker with
  | (.dismissed, floor) => (.dismissed, { l with floor, gone := l.gone ++ [worker] })
  | (handOut, floor) => (handOut, { l with floor })

/-- Arranges the next look at a key after a reconcile that ended at the instant `now`. -/
def arrange (l : Loop) (now : Nat) (key : Key) : Look → Loop
  | .ok requeue =>
      { l with
        failures := l.failures.erase key
        floor := requeue.elim l.floor fun delay => l.floor.addAfter now delay key }
  | .error fault =>
      if fault.isConflict then { l with floor := l.floor.add key }
      else
        let count := min (l.failureCount key + 1) failureLimit
        { l with
          failures := l.failures.insert key count
          floor := l.floor.addAfter now (l.settings.backoff count) key }

/-- Takes a key back after a reconcile. -/
def finish (l : Loop) (now : Nat) (key : Key) (look : Look) : Loop :=
  let l := l.arrange now key look
  { l with floor := l.floor.done key }

/-- Closes the queue; workers leave after the key they hold. -/
def stop (l : Loop) : Loop := { l with floor := l.floor.close }

/-- How the run of the loop ended, if it has. -/
def ending? (l : Loop) : Option (Except Fault Unit) :=
  if l.settings.workers = 0 then some (.error (.invalidConfig "workers must be positive"))
  else if l.gone.length = l.settings.workers then some (.ok ())
  else none

end Loop

end Steward
