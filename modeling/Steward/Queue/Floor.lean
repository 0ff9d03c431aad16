import Steward.Queue
import Steward.Queue.Signal

/-!
# The floor

The work queue together with the workers that ask it for keys.  The signal is given each time a key
begins to wait, and to everyone when the queue is closed.  A worker that asks is let in if the queue
is open, and is served after that; others may close the queue in between.  What a worker does with
its key is of no concern here: it comes back with the key in the end.
-/

namespace Steward

structure Floor (ω : Type) where
  queue : WorkQueue := {}
  signal : Signal ω := {}
  deriving DecidableEq

/-- What becomes of a worker that asks for a key. -/
inductive HandOut where
  | key (key : Key)
  /-- The queue is closed; there is nothing more to do. -/
  | dismissed
  /-- No key is waiting. -/
  | asleep
  deriving DecidableEq, Repr

namespace Floor

variable {ω : Type}

/-- Puts a changed queue in place and wakes a worker if one more key is waiting. -/
def changed (f : Floor ω) (queue : WorkQueue) : Floor ω :=
  { queue
    signal :=
      if f.queue.waiting.length < queue.waiting.length then f.signal.notifyOne else f.signal }

def add (f : Floor ω) (key : Key) : Floor ω := f.changed (f.queue.add key)

def addAfter (f : Floor ω) (now delay : Nat) (key : Key) : Floor ω :=
  f.changed (f.queue.addAfter now delay key)

def done (f : Floor ω) (key : Key) : Floor ω := f.changed (f.queue.done key)

def close (f : Floor ω) : Floor ω := ⟨f.queue.close, f.signal.notifyAll⟩

/-- Serves a worker that was let in.  If the queue was closed since then, the worker was notified
with everyone else, so it does not go to sleep. -/
def serve (f : Floor ω) (w : ω) : HandOut × Floor ω :=
  match f.queue.take? with
  | some (key, queue) => (.key key, { f with queue })
  | none =>
      (.asleep,
        { f with signal := if f.queue.closed then f.signal.callBack w else f.signal.sleep w })

/-- Lets a worker ask for a key, where nothing comes between its being let in and its being served.
-/
def get (f : Floor ω) (w : ω) : HandOut × Floor ω :=
  if f.queue.closed then (.dismissed, f) else f.serve w

/-- Looks for a key without waiting for one. -/
def look (f : Floor ω) : HandOut × Floor ω :=
  if f.queue.closed then (.dismissed, f)
  else
    match f.queue.take? with
    | some (key, queue) => (.key key, { f with queue })
    | none => (.asleep, { f with signal := { f.signal with permit := false } })

/-- Lets the first of the timers that are due by `now` run out. -/
def expire? (f : Floor ω) (now : Nat) : Option (Floor ω) :=
  (f.queue.popDue? now).map fun (timer, queue) =>
    { f with queue }.changed (queue.expire timer)

end Floor

end Steward
