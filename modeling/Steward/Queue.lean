import Std.Data.ExtTreeSet
import Steward.Intervals
import Steward.Key

/-!
# The work queue

A queue of keys for any number of workers.  A key waits at most once, and it is held by at most one
worker at a time: a key that is added while it is held is only marked, and waits again as soon as it
is given back.  An add may be put off; then a key has one deadline, the earliest that was asked for.
Every deadline sets a timer, and a timer whose deadline was replaced by an earlier one runs out
without effect.  Whoever comes to a queue that was closed is turned away.  To find it open and to do
what one came for are two things, though: `insert`, `schedule` and `take?` do not look again, and
others may close the queue in between.
-/

namespace Steward

/-- A timer that adds a key. -/
structure QueueTimer where
  due : Nat
  key : Key
  deriving DecidableEq, Repr

structure WorkQueue where
  /-- The keys to be handed out, first come first served. -/
  waiting : List Key := []
  /-- The keys that were added since they were handed out last. -/
  dirty : Std.ExtTreeSet Key compare := ∅
  /-- The keys that workers hold. -/
  processing : Std.ExtTreeSet Key compare := ∅
  /-- The deadlines of the adds that were put off. -/
  scheduled : KeyMap Nat := ∅
  /-- The running timers, in the order in which they were set. -/
  timers : List QueueTimer := []
  closed : Bool := false
  deriving DecidableEq

namespace WorkQueue

/-- Marks a key, and lets it wait unless it is held. -/
def insert (q : WorkQueue) (key : Key) : WorkQueue :=
  if q.dirty.contains key then q
  else
    { q with
      dirty := q.dirty.insert key
      waiting := if q.processing.contains key then q.waiting else q.waiting ++ [key] }

/-- Adds a key to a queue that is open. -/
def add (q : WorkQueue) (key : Key) : WorkQueue := if q.closed then q else q.insert key

/-- Gives a key a deadline, unless it has one that is no later. -/
def schedule (q : WorkQueue) (deadline : Nat) (key : Key) : WorkQueue :=
  if q.scheduled[key]?.any fun pending => pending ≤ deadline then q
  else
    { q with
      scheduled := q.scheduled.insert key deadline
      timers := q.timers ++ [⟨deadline, key⟩] }

/-- Adds a key once `delay` has passed, unless it is to be added by then anyway.  Instants have no
upper bound here; where those of a clock have one, the delay is to stay within it. -/
def addAfter (q : WorkQueue) (now delay : Nat) (key : Key) : WorkQueue :=
  if q.closed then q
  else if delay = 0 then q.add key
  else q.schedule (now + delay) key

/-- What a timer does when it runs out. -/
def expire (q : WorkQueue) (timer : QueueTimer) : WorkQueue :=
  if q.scheduled[timer.key]? = some timer.due then
    { q with scheduled := q.scheduled.erase timer.key }.add timer.key
  else q

/-- Hands out the key that waits longest. -/
def take? (q : WorkQueue) : Option (Key × WorkQueue) :=
  match q.waiting with
  | [] => none
  | key :: rest =>
      some (key,
        { q with
          waiting := rest
          dirty := q.dirty.erase key
          processing := q.processing.insert key })

/-- Gives a key back. -/
def done (q : WorkQueue) (key : Key) : WorkQueue :=
  { q with
    processing := q.processing.erase key
    waiting := if q.dirty.contains key then q.waiting ++ [key] else q.waiting }

def close (q : WorkQueue) : WorkQueue := { q with closed := true }

/-- The instant at which the next timer runs out. -/
def due? (q : WorkQueue) : Option Nat := (q.timers.map QueueTimer.due).min?

/-- The first of the timers that are due by `now`, taken out of the queue. -/
def popDue? (q : WorkQueue) (now : Nat) : Option (QueueTimer × WorkQueue) :=
  match q.timers.find? fun timer => timer.due ≤ now with
  | none => none
  | some timer => some (timer, { q with timers := q.timers.erase timer })

end WorkQueue

end Steward
