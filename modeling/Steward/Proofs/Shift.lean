import Steward.Loop.Shift
import Steward.Proofs.Crew

/-!
# A shift keeps to the rules of the queue

The workers of a loop give back a key only after they got it and once they are through with it.  So
the keys of the reconciles that wait are the keys that the queue takes for held, whatever the
reconciles do and however they end, and no key has two reconciles at a time.
-/

namespace Steward

variable {ρ ω : Type}

namespace Loop

variable {l : Loop} {held : List Key} {key : Key}

/-- To arrange the next look is to add the key, at once or later, or to do nothing. -/
theorem arrange_sound (sound : l.floor.queue.Sound held) (now : Nat) (key : Key) (look : Look) :
    (l.arrange now key look).floor.queue.Sound held := by
  cases look with
  | ok requeue =>
      cases requeue with
      | none => exact sound
      | some delay => exact sound.addAfter now delay key
  | error fault =>
      rw [arrange]
      by_cases conflict : fault.isConflict = true
      · rw [if_pos conflict]
        exact sound.add key
      · rw [if_neg conflict]
        exact sound.addAfter now _ key

theorem finish_sound (sound : l.floor.queue.Sound (key :: held)) (now : Nat) (look : Look) :
    (l.finish now key look).floor.queue.Sound held := by
  have given := (arrange_sound sound now key look).done List.mem_cons_self
  rw [List.erase_cons_head] at given
  exact given

end Loop

namespace Shift

/-! ## What can happen next -/

/-- What happens next in a shift: a worker asks, a timer runs out, a reconcile goes on, or a worker
wakes. -/
inductive Moves (work : Work ρ ω) (now : Nat) (s : Shift ρ) (w : ω) : Shift ρ → ω → Prop where
  | asks {worker : Nat} {rest : List Nat} (asking : s.asking = worker :: rest) :
      Moves work now s w ({ s with asking := rest }.ask work now worker w).1
        ({ s with asking := rest }.ask work now worker w).2
  | runsOut {floor : Floor Nat} (expires : s.loop.floor.expire? now = some floor) :
      Moves work now s w { s with loop := { s.loop with floor } } w
  | goesOn {job : Job ρ} {jobs : List (Job ρ)} (pops : popJob? now s.jobs = some (job, jobs)) :
      Moves work now s w ({ s with jobs }.resume work now job w).1
        ({ s with jobs }.resume work now job w).2
  | wakes {worker : Nat} {signal : Signal Nat}
      (pops : s.loop.floor.signal.popWoken? = some (worker, signal)) :
      Moves work now s w
        { s with
          asking := [worker]
          loop := { s.loop with floor := { s.loop.floor with signal } } } w

theorem moves_of_step? {work : Work ρ ω} {s t : Shift ρ} {now : Nat} {w w' : ω}
    (steps : s.step? work now w = some (t, w')) : Moves work now s w t w' := by
  rw [step?] at steps
  split at steps
  case h_1 worker rest asking =>
    have asks : Moves work now s w _ _ := .asks asking
    rwa [Option.some.inj steps] at asks
  split at steps
  case h_1 floor expires =>
    cases steps
    exact .runsOut expires
  split at steps
  case h_1 job jobs pops =>
    cases steps
    exact .goesOn pops
  · obtain ⟨⟨worker, signal⟩, pops, same⟩ := Option.map_eq_some_iff.mp steps
    cases same
    exact .wakes pops

/-- A worker that asks begins with a key, or nothing comes of it for the world. -/
theorem ask_cases (s : Shift ρ) (work : Work ρ ω) (now worker : Nat) (w : ω) :
    (∃ key loop, s.ask work now worker w =
      ({ s with loop }.carry now worker key (work.begin key w).1, (work.begin key w).2)) ∨
    ∃ loop, s.ask work now worker w = ({ s with loop }, w) := by
  rw [ask]
  split
  · exact .inl ⟨_, _, rfl⟩
  · exact .inr ⟨_, rfl⟩

/-! ## The keys of the reconciles that wait -/

/-- The queue takes the keys of the waiting reconciles for held. -/
def Sound (s : Shift ρ) : Prop := s.loop.floor.queue.Sound (s.jobs.map Job.key)

/-- The shifts that come about when the world goes its way and others use the queue. -/
inductive Reached (work : Work ρ ω) : Shift ρ → Prop where
  | start (settings : LoopSettings) : Reached work (.start settings)
  | step {s t : Shift ρ} {now : Nat} {w w' : ω} (reached : Reached work s)
      (moves : s.step? work now w = some (t, w')) : Reached work t
  | add {s : Shift ρ} (reached : Reached work s) (key : Key) : Reached work (s.add key)
  | addAfter {s : Shift ρ} (reached : Reached work s) (now delay : Nat) (key : Key) :
      Reached work { s with loop := { s.loop with floor := s.loop.floor.addAfter now delay key } }
  | stop {s : Shift ρ} (reached : Reached work s) : Reached work s.stop

variable {s t : Shift ρ} {key : Key}

/-- A worker that has a key keeps it while its reconcile waits, and gives it back at the end. -/
theorem carry_sound (sound : s.loop.floor.queue.Sound (key :: s.jobs.map Job.key))
    (now worker : Nat) (progress : Progress ρ) : (s.carry now worker key progress).Sound := by
  cases progress with
  | finished look => exact Loop.finish_sound sound now look
  | waiting due rest =>
      refine sound.perm ?_
      rw [carry, List.map_append]
      exact (List.perm_append_singleton key _).symm

theorem ask_sound (sound : s.Sound) (work : Work ρ ω) (now worker : Nat) (w : ω) :
    (s.ask work now worker w).1.Sound := by
  rw [ask, Loop.ask]
  obtain ⟨_, same⟩ | ⟨_, key, rest, first, same⟩ | ⟨_, _, same⟩ := s.loop.floor.get_cases worker
  · rw [same]
    exact sound
  · rw [same]
    exact carry_sound (sound.handedOut first) now worker _
  · rw [same]
    exact sound

theorem popJob?_perm {now : Nat} {jobs rest : List (Job ρ)} {job : Job ρ}
    (pops : popJob? now jobs = some (job, rest)) : jobs.Perm (job :: rest) := by
  induction jobs generalizing rest with
  | nil => cases pops
  | cons first jobs ih =>
      rw [popJob?] at pops
      by_cases due : first.due ≤ now
      · rw [if_pos due] at pops
        cases pops
        exact .refl _
      · rw [if_neg due] at pops
        obtain ⟨⟨_, others⟩, later, same⟩ := Option.map_eq_some_iff.mp pops
        cases same
        exact ((ih later).cons first).trans (.swap job first others)

theorem step?_sound {work : Work ρ ω} {now : Nat} {w w' : ω} (sound : s.Sound)
    (steps : s.step? work now w = some (t, w')) : t.Sound := by
  cases moves_of_step? steps with
  | @asks worker rest =>
      exact ask_sound (s := { s with asking := rest }) sound work now worker w
  | runsOut expires =>
      obtain ⟨timer, _, _, rfl⟩ := Floor.exists_runOut_of_expire? expires
      exact (sound.reschedule _ _).expire timer
  | @goesOn job jobs pops =>
      have held : s.loop.floor.queue.Sound (job.key :: jobs.map Job.key) :=
        sound.perm ((popJob?_perm pops).map Job.key)
      exact carry_sound (s := { s with jobs }) held now job.worker (work.resume job.rest w).1
  | wakes => exact sound

theorem Reached.sound {work : Work ρ ω} (reached : Reached work s) : s.Sound := by
  induction reached with
  | start => exact WorkQueue.sound_empty
  | step _ moves ih => exact step?_sound ih moves
  | add _ key ih => exact WorkQueue.Sound.add ih key
  | addAfter _ now delay key ih => exact WorkQueue.Sound.addAfter ih now delay key
  | stop _ ih => exact WorkQueue.Sound.close ih

/-- No two reconciles of a key overlap, and no key waits while it is reconciled. -/
theorem Reached.jobs_distinct {work : Work ρ ω} (reached : Reached work s) :
    (s.jobs.map Job.key).Nodup ∧ ∀ job ∈ s.jobs, job.key ∉ s.loop.floor.queue.waiting := by
  have sound := reached.sound
  refine ⟨sound.held_nodup, fun job waits queued => ?_⟩
  exact sound.free job.key queued ((sound.mem_held job.key).mpr (List.mem_map_of_mem waits))

end Shift

end Steward
