import Steward.Loop

/-!
# Shifts

A loop at work.  Its workers carry out reconciles in some world; a reconcile may have to wait for a
while, and then the worker stays with it until the time has come.  A worker that finished a
reconcile asks for its next key at once.
-/

namespace Steward

/-- How far a reconcile got. -/
inductive Progress (ρ : Type) where
  | finished (look : Look)
  /-- It goes on at an instant. -/
  | waiting (due : Nat) (rest : ρ)

/-- What workers do with a key, in a world `ω`, where `ρ` is the rest of a reconcile. -/
structure Work (ρ ω : Type) where
  begin : Key → ω → Progress ρ × ω
  resume : ρ → ω → Progress ρ × ω

/-- A reconcile that waits. -/
structure Job (ρ : Type) where
  worker : Nat
  key : Key
  due : Nat
  rest : ρ

structure Shift (ρ : Type) where
  loop : Loop
  /-- The workers that are about to ask for a key. -/
  asking : List Nat := []
  jobs : List (Job ρ) := []

namespace Shift

variable {ρ ω : Type}

/-- A shift at its beginning. -/
def start (settings : LoopSettings) : Shift ρ :=
  { loop := { settings }, asking := List.range settings.workers }

/-- Notes how far a worker got with its key. -/
def carry (s : Shift ρ) (now : Nat) (worker : Nat) (key : Key) : Progress ρ → Shift ρ
  | .finished look =>
      { s with loop := s.loop.finish now key look, asking := worker :: s.asking }
  | .waiting due rest => { s with jobs := s.jobs ++ [⟨worker, key, due, rest⟩] }

/-- Lets a worker ask for a key and begin with it. -/
def ask (s : Shift ρ) (work : Work ρ ω) (now : Nat) (worker : Nat) (w : ω) : Shift ρ × ω :=
  match s.loop.ask worker with
  | (.key key, loop) =>
      let (progress, w) := work.begin key w
      ({ s with loop }.carry now worker key progress, w)
  | (_, loop) => ({ s with loop }, w)

/-- Lets a reconcile go on whose time has come. -/
def resume (s : Shift ρ) (work : Work ρ ω) (now : Nat) (job : Job ρ) (w : ω) : Shift ρ × ω :=
  let (progress, w) := work.resume job.rest w
  (s.carry now job.worker job.key progress, w)

/-- The first job whose time has come by `now`, taken out of the list. -/
def popJob? (now : Nat) : List (Job ρ) → Option (Job ρ × List (Job ρ))
  | [] => none
  | job :: rest =>
      if job.due ≤ now then some (job, rest)
      else (popJob? now rest).map fun (found, rest) => (found, job :: rest)

/-- The next thing that happens at the instant `now`: a worker asks, a timer runs out, a reconcile
goes on, or a worker wakes. -/
def step? (s : Shift ρ) (work : Work ρ ω) (now : Nat) (w : ω) : Option (Shift ρ × ω) :=
  match s.asking with
  | worker :: rest => some ({ s with asking := rest }.ask work now worker w)
  | [] =>
      match s.loop.floor.expire? now with
      | some floor => some ({ s with loop := { s.loop with floor } }, w)
      | none =>
          match popJob? now s.jobs with
          | some (job, jobs) => some ({ s with jobs }.resume work now job w)
          | none =>
              s.loop.floor.signal.popWoken?.map fun (worker, signal) =>
                ({ s with
                    asking := [worker]
                    loop := { s.loop with floor := { s.loop.floor with signal } } }, w)

/-- The instant of the next timer or waiting reconcile. -/
def due? (s : Shift ρ) : Option Nat :=
  (s.loop.floor.queue.due?.toList ++ s.jobs.map Job.due).min?

def add (s : Shift ρ) (key : Key) : Shift ρ :=
  { s with loop := { s.loop with floor := s.loop.floor.add key } }

def stop (s : Shift ρ) : Shift ρ := { s with loop := s.loop.stop }

end Shift

end Steward
