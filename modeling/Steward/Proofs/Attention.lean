import Steward.Proofs.Shift

/-!
# No key is forgotten

A reconcile that asks for another look, or that was cut short, leaves its key so that it comes round
again: the key waits, or it is marked and waits as soon as it is given back, or it has a deadline by
the time that was asked for.  A deadline goes only when an earlier one takes its place or when it
adds the key, and a mark goes only when the key is handed out.  So until then the key is attended
to, whatever the workers, their other keys and the clock do.
-/

namespace Steward

namespace WorkQueue

variable {q : WorkQueue} {held : List Key} {key k : Key} {due : Nat}

/-- The key is marked, or it is to be added by the instant `due`. -/
def Upcoming (q : WorkQueue) (key : Key) (due : Nat) : Prop :=
  key ∈ q.dirty ∨ ∃ deadline ≤ due, q.scheduled[key]? = some deadline

/-- The key waits, or it is marked while it is held, or it is to be added by the instant `due`. -/
def Attended (q : WorkQueue) (key : Key) (due : Nat) : Prop :=
  key ∈ q.waiting ∨ (key ∈ q.dirty ∧ key ∈ q.processing) ∨
    ∃ deadline ≤ due, q.scheduled[key]? = some deadline

theorem Upcoming.attended (upcoming : q.Upcoming key due) (sound : q.Sound held) :
    q.Attended key due := by
  obtain dirty | scheduled := upcoming
  · obtain waits | busy := sound.placed key dirty
    · exact .inl waits
    · exact .inr (.inl ⟨dirty, busy⟩)
  · exact .inr (.inr scheduled)

@[simp]
theorem scheduled_insert (q : WorkQueue) (key : Key) :
    (q.insert key).scheduled = q.scheduled := by
  rw [insert]
  split <;> rfl

@[simp]
theorem scheduled_add (q : WorkQueue) (key : Key) : (q.add key).scheduled = q.scheduled := by
  rw [add]
  split
  · rfl
  · exact q.scheduled_insert key

theorem mem_dirty_add_of_mem (dirty : key ∈ q.dirty) (k : Key) : key ∈ (q.add k).dirty := by
  rw [add]
  split
  · exact dirty
  · exact mem_dirty_insert.mpr (.inr dirty)

theorem Upcoming.add (upcoming : q.Upcoming key due) (k : Key) : (q.add k).Upcoming key due := by
  obtain dirty | scheduled := upcoming
  · exact .inl (mem_dirty_add_of_mem dirty k)
  · refine .inr ?_
    rw [scheduled_add]
    exact scheduled

/-- A deadline is replaced by an earlier one only. -/
theorem Upcoming.addAfter (upcoming : q.Upcoming key due) (now delay : Nat) (k : Key) :
    (q.addAfter now delay k).Upcoming key due := by
  rw [WorkQueue.addAfter, schedule]
  split
  · exact upcoming
  split
  · exact upcoming.add k
  split
  · exact upcoming
  case isFalse later =>
    obtain dirty | ⟨deadline, within, scheduled⟩ := upcoming
    · exact .inl dirty
    by_cases same : k = key
    · subst same
      rw [scheduled] at later
      have earlier : now + delay < deadline := by simpa using later
      exact .inr ⟨now + delay, Nat.le_trans (Nat.le_of_lt earlier) within,
        Std.ExtTreeMap.getElem?_insert_self⟩
    · refine .inr ⟨deadline, within, ?_⟩
      rw [Std.ExtTreeMap.getElem?_insert, if_neg (by simpa using same)]
      exact scheduled

/-- A key that is put off is to be added when the delay has passed, if not before. -/
theorem upcoming_addAfter (opened : q.closed = false) (now delay : Nat) :
    (q.addAfter now delay key).Upcoming key (now + delay) := by
  rw [addAfter, if_neg (by rw [opened]; exact Bool.false_ne_true), schedule]
  split
  · exact .inl ((mem_dirty_add opened).mpr (.inl rfl))
  split
  case isTrue earlier =>
    obtain ⟨deadline, scheduled, within⟩ := (Option.any_eq_true _ _).mp earlier
    exact .inr ⟨deadline, of_decide_eq_true within, scheduled⟩
  · exact .inr ⟨now + delay, Nat.le_refl _, Std.ExtTreeMap.getElem?_insert_self⟩

/-- A deadline goes when it adds its key. -/
theorem Upcoming.expire (upcoming : q.Upcoming key due) (opened : q.closed = false)
    (timer : QueueTimer) : (q.expire timer).Upcoming key due := by
  rw [WorkQueue.expire]
  split
  · by_cases same : timer.key = key
    · rw [same]
      have erased : { q with scheduled := q.scheduled.erase key }.closed = false := opened
      exact .inl ((mem_dirty_add erased).mpr (.inl rfl))
    · refine Upcoming.add ?_ timer.key
      obtain dirty | ⟨deadline, within, scheduled⟩ := upcoming
      · exact .inl dirty
      · refine .inr ⟨deadline, within, ?_⟩
        rw [Std.ExtTreeMap.getElem?_erase, if_neg (by simpa using same)]
        exact scheduled
  · exact upcoming

theorem Upcoming.handedOut (upcoming : q.Upcoming key due) (other : key ≠ k) (rest : List Key) :
    (q.handedOut k rest).Upcoming key due :=
  upcoming.imp_left fun dirty => mem_erase_iff.mpr ⟨other, dirty⟩

end WorkQueue

namespace Loop

/-- After which delay a key is to be looked at again, when its reconcile ended like this. -/
def delay? (l : Loop) (key : Key) : Look → Option Nat
  | .ok requeue => requeue
  | .error fault =>
      some (if fault.isConflict then 0
        else l.settings.backoff (min (l.failureCount key + 1) failureLimit))

/-- To arrange the next look at a key is to put its add off by the delay, if there is one. -/
theorem queue_arrange (l : Loop) (now : Nat) (key : Key) (look : Look) :
    (l.arrange now key look).floor.queue =
      (l.delay? key look).elim l.floor.queue fun delay =>
        l.floor.queue.addAfter now delay key := by
  cases look with
  | ok requeue => cases requeue <;> rfl
  | error fault =>
      rw [arrange, delay?]
      by_cases conflict : fault.isConflict = true
      · rw [if_pos conflict, if_pos conflict]
        obtain ⟨_, same⟩ | ⟨later, _⟩ := l.floor.queue.addAfter_cases now 0 key
        · exact same.symm
        · exact absurd rfl later
      · rw [if_neg conflict, if_neg conflict]
        rfl

end Loop

/-! ## A loop with its workers -/

/-- A loop at an instant. -/
structure Moment where
  loop : Loop
  clock : Nat := 0
  /-- Who holds which key. -/
  held : List (Nat × Key) := []
  /-- Who has arranged the next look at which key, and is about to give it back. -/
  arranged : List (Nat × Key) := []

/-- What may happen to a loop. -/
inductive LoopEvent where
  | passed (ms : Nat)
  | added (key : Key)
  | deferred (key : Key) (delay : Nat)
  /-- A timer ran out, and added its key if its deadline stood. -/
  | ranOut (timer : QueueTimer)
  /-- A worker that was woken is about to ask again. -/
  | roused (w : Nat)
  | asked (w : Nat) (answer : HandOut)
  /-- A reconcile ended, and the next look was arranged. -/
  | ended (w : Nat) (key : Key) (look : Look)
  | returned (w : Nat) (key : Key)
  | stopped

namespace Moment

def queue (m : Moment) : WorkQueue := m.loop.floor.queue

/-- The same moment with another floor. -/
def onFloor (m : Moment) (floor : Floor Nat) : Moment :=
  { m with loop := { m.loop with floor } }

/-- Workers take keys, reconcile them, arrange the next look and give them back; meanwhile time
passes, timers run out, and others add keys. -/
inductive Step : Moment → LoopEvent → Moment → Prop where
  | pass {m : Moment} (ms : Nat) : Step m (.passed ms) { m with clock := m.clock + ms }
  | add {m : Moment} (key : Key) : Step m (.added key) (m.onFloor (m.loop.floor.add key))
  | addAfter {m : Moment} (key : Key) (delay : Nat) :
      Step m (.deferred key delay) (m.onFloor (m.loop.floor.addAfter m.clock delay key))
  | runOut {m : Moment} {timer : QueueTimer} (running : timer ∈ m.queue.timers)
      (due : timer.due ≤ m.clock) :
      Step m (.ranOut timer) (m.onFloor (m.loop.floor.runOut timer))
  | rouse {m : Moment} (w : Nat) : Step m (.roused w) (m.onFloor (m.loop.floor.rouse w))
  | dismiss {m : Moment} {w : Nat} (closed : m.queue.closed = true) :
      Step m (.asked w .dismissed)
        { m with loop := { m.loop with gone := m.loop.gone ++ [w] } }
  /-- A worker that was let in is served; the loop may have been stopped since. -/
  | serve {m : Moment} (w : Nat) :
      Step m (.asked w (m.loop.floor.serve w).1)
        { m.onFloor (m.loop.floor.serve w).2 with
          held := QueueEvent.heldAfter m.held (.asked w (m.loop.floor.serve w).1) }
  | finish {m : Moment} {w : Nat} {key : Key} (look : Look) (holds : (w, key) ∈ m.held)
      (busy : (w, key) ∉ m.arranged) :
      Step m (.ended w key look)
        { m with
          loop := m.loop.arrange m.clock key look
          arranged := (w, key) :: m.arranged }
  | giveBack {m : Moment} {w : Nat} {key : Key} (holds : (w, key) ∈ m.held)
      (through : (w, key) ∈ m.arranged) :
      Step m (.returned w key)
        { m.onFloor (m.loop.floor.done key) with
          held := m.held.erase (w, key)
          arranged := m.arranged.erase (w, key) }
  | stop {m : Moment} : Step m .stopped { m with loop := m.loop.stop }

/-- One step after the other. -/
inductive Steps : Moment → List LoopEvent → Moment → Prop where
  | none (m : Moment) : Steps m [] m
  | more {m m' n : Moment} {e : LoopEvent} {events : List LoopEvent} (step : Step m e m')
      (steps : Steps m' events n) : Steps m (e :: events) n

/-- One step more. -/
theorem Steps.concat {m n n' : Moment} {e : LoopEvent} {events : List LoopEvent}
    (steps : Steps m events n) (step : Step n e n') : Steps m (events ++ [e]) n' := by
  induction steps with
  | none => exact .more step (.none n')
  | more first _ ih => exact .more first (ih step)

/-- The queue agrees with who holds which key. -/
def Sound (m : Moment) : Prop := m.queue.Sound (m.held.map Prod.snd)

variable {m m' n : Moment} {e : LoopEvent} {events : List LoopEvent} {key : Key} {due : Nat}

theorem sound_start (settings : LoopSettings) : Sound { loop := { settings } } :=
  WorkQueue.sound_empty

/-- What a step does to the queue. -/
theorem Step.turn (step : Step m e m') :
    ∃ event : QueueEvent Nat, Crew.Turn m.held m.queue event m'.queue ∧
      m'.held = event.heldAfter m.held := by
  cases step with
  | pass | rouse | dismiss => exact ⟨.idle, .silent trivial, rfl⟩
  | add key =>
      exact ⟨.added key, Crew.turn_add m.queue.scheduled m.queue.timers rfl, rfl⟩
  | addAfter key delay => exact ⟨_, Crew.turn_addAfter _ _ m.clock delay key, rfl⟩
  | @runOut timer =>
      change ∃ event, Crew.Turn m.held m.queue event
        (WorkQueue.expire { m.queue with timers := _ } timer) ∧ _
      by_cases stands : m.queue.scheduled[timer.key]? = some timer.due
      · rw [WorkQueue.expire, if_pos stands]
        exact ⟨.fired timer, Crew.turn_add _ _ rfl, rfl⟩
      · rw [WorkQueue.expire, if_neg stands]
        exact ⟨.lapsed timer, .silent trivial, rfl⟩
  | serve w => exact ⟨_, Crew.turn_serve m.loop.floor m.held w, rfl⟩
  | @finish w key look =>
      have arranged := m.loop.queue_arrange m.clock key look
      change ∃ event, Crew.Turn m.held m.queue event (m.loop.arrange _ _ _).floor.queue ∧ _
      rw [arranged]
      cases m.loop.delay? key look with
      | none => exact ⟨.idle, .silent trivial, rfl⟩
      | some delay => exact ⟨_, Crew.turn_addAfter _ _ m.clock delay key, rfl⟩
  | @giveBack w key holds => exact ⟨.returned w key, .returned holds, rfl⟩
  | stop => exact ⟨.closed, .closed, rfl⟩

theorem Step.sound (step : Step m e m') (sound : m.Sound) : m'.Sound := by
  obtain ⟨event, turn, held⟩ := step.turn
  rw [Sound, held]
  exact turn.sound sound

theorem Steps.sound (steps : Steps m events n) (sound : m.Sound) : n.Sound := by
  induction steps with
  | none => exact sound
  | more step _ ih => exact ih (step.sound sound)

/-- A queue that is open at the end was open all along. -/
theorem Steps.opened (steps : Steps m events n) (opened : n.queue.closed = false) :
    m.queue.closed = false := by
  induction steps with
  | none => exact opened
  | more step _ ih =>
      obtain ⟨_, turn, _⟩ := step.turn
      refine Bool.eq_false_iff.mpr fun closed => ?_
      exact Bool.false_ne_true ((ih opened).symm.trans (turn.closed_of_closed closed))

/-! ## A key is attended to until it is handed out -/

/-- Only a hand-out takes a key out of sight. -/
theorem Step.upcoming (step : Step m e m') (opened : m.queue.closed = false)
    (unbegun : ∀ w, e ≠ .asked w (.key key)) (upcoming : m.queue.Upcoming key due) :
    m'.queue.Upcoming key due := by
  cases step with
  | pass | rouse | dismiss | giveBack | stop => exact upcoming
  | add k => exact upcoming.add k
  | addAfter k delay => exact upcoming.addAfter m.clock delay k
  | @runOut timer =>
      exact WorkQueue.Upcoming.expire (q := { m.queue with timers := m.queue.timers.erase timer })
        upcoming opened timer
  | serve w =>
      change WorkQueue.Upcoming (m.loop.floor.serve w).2.queue key due
      obtain ⟨k, rest, _, same⟩ | ⟨_, same⟩ := m.loop.floor.serve_cases w
      · have other : key ≠ k := by
          rintro rfl
          exact unbegun w (by rw [same])
        rw [same]
        exact upcoming.handedOut other rest
      · rw [same]
        exact upcoming
  | @finish w k look =>
      change WorkQueue.Upcoming (m.loop.arrange m.clock k look).floor.queue key due
      rw [Loop.queue_arrange]
      cases m.loop.delay? k look with
      | none => exact upcoming
      | some delay => exact upcoming.addAfter m.clock delay k

theorem Steps.upcoming (steps : Steps m events n) (opened : n.queue.closed = false)
    (unbegun : ∀ w, .asked w (.key key) ∉ events) (upcoming : m.queue.Upcoming key due) :
    n.queue.Upcoming key due := by
  induction steps with
  | none => exact upcoming
  | more step steps ih =>
      have next := step.upcoming ((Steps.more step steps).opened opened)
        (fun w asks => unbegun w (asks ▸ List.mem_cons_self)) upcoming
      exact ih opened (fun w later => unbegun w (List.mem_cons_of_mem _ later)) next

/-- From the end of a reconcile that asks for another look, and until the key is handed out again,
the key is attended to, as long as the queue is open.  Instants have no upper bound here, so the
deadline exists for every delay. -/
theorem attended_until_next_look {settings : LoopSettings} {past : List LoopEvent} {w delay : Nat}
    {look : Look} (before : Steps { loop := { settings } } past m)
    (ended : Step m (.ended w key look) m') (asks : m.loop.delay? key look = some delay)
    (after : Steps m' events n) (unbegun : ∀ w, .asked w (.key key) ∉ events)
    (opened : n.queue.closed = false) : n.queue.Attended key (m.clock + delay) := by
  have sound : m.Sound := before.sound (sound_start settings)
  have upcoming : m'.queue.Upcoming key (m.clock + delay) := by
    have before : m.queue.closed = false := (Steps.more ended after).opened opened
    cases ended with
    | finish =>
        change WorkQueue.Upcoming (m.loop.arrange m.clock key look).floor.queue key _
        rw [Loop.queue_arrange, asks]
        exact WorkQueue.upcoming_addAfter before m.clock delay
  exact (after.upcoming opened unbegun upcoming).attended (after.sound (ended.sound sound))

def sampleKey : Key := ⟨"default", "web"⟩

/-- A key was added, and a worker took it. -/
def takenSample : Moment :=
  { loop := { floor := ((({} : Floor Nat).add sampleKey).serve 0).2 }, held := [(0, sampleKey)] }

theorem steps_takenSample :
    Steps { loop := {} } [.added sampleKey, .asked 0 (.key sampleKey)] takenSample :=
  .more (.add sampleKey) (.more (.serve 0) (.none _))

/-- The reconcile of the key asked for another look in five milliseconds. -/
def endedSample : Moment :=
  { takenSample with
    loop := takenSample.loop.arrange takenSample.clock sampleKey (.ok (some 5))
    arranged := [(0, sampleKey)] }

/-- The key is given back, and then an add is put off for longer. -/
theorem attended_until_next_look_of_sample :
    ∃ n, Step takenSample (.ended 0 sampleKey (.ok (some 5))) endedSample ∧
      Steps endedSample [.returned 0 sampleKey, .passed 2, .deferred sampleKey 9] n ∧
      n.queue.closed = false ∧ n.queue.Attended sampleKey (takenSample.clock + 5) := by
  have ended : Step takenSample (.ended 0 sampleKey (.ok (some 5))) endedSample :=
    .finish (.ok (some 5)) List.mem_cons_self nofun
  have returned : Step endedSample (.returned 0 sampleKey) _ :=
    .giveBack List.mem_cons_self List.mem_cons_self
  have after := Steps.more returned (.more (.pass 2) (.more (.addAfter sampleKey 9) (.none _)))
  refine ⟨_, ended, after, ?_, ?_⟩
  · decide +kernel
  · exact attended_until_next_look steps_takenSample ended rfl after (by simp) (by decide +kernel)

end Moment

/-! ## Shifts go through such steps -/

namespace Shift

variable {ρ ω : Type} {s t : Shift ρ} {m : Moment} {now : Nat}

/-- The moment at which a shift is. -/
structure At (s : Shift ρ) (now : Nat) (m : Moment) : Prop where
  loop : m.loop = s.loop
  clock : m.clock = now
  held : m.held.Perm (s.jobs.map fun job => (job.worker, job.key))
  arranged : m.arranged = []

theorem at_start (settings : LoopSettings) :
    (start settings : Shift ρ).At 0 { loop := { settings } } :=
  ⟨rfl, rfl, .refl _, rfl⟩

/-- A worker that is through with its key arranges the next look and gives the key back. -/
theorem carry_steps {worker : Nat} {key : Key} (loop : m.loop = s.loop) (clock : m.clock = now)
    (held : m.held.Perm ((worker, key) :: s.jobs.map fun job => (job.worker, job.key)))
    (arranged : m.arranged = []) (progress : Progress ρ) :
    ∃ events m', Moment.Steps m events m' ∧ (s.carry now worker key progress).At now m' := by
  have holds : (worker, key) ∈ m.held := held.mem_iff.mpr List.mem_cons_self
  cases progress with
  | finished look =>
      have ended : Moment.Step m (.ended worker key look) _ :=
        .finish look holds (by rw [arranged]; exact List.not_mem_nil)
      have returned := Moment.Steps.more ended
        (.more (.giveBack holds List.mem_cons_self) (.none _))
      refine ⟨_, _, returned, ?_, clock, ?_, ?_⟩
      · rw [← clock, carry, Loop.finish, ← loop]
        rfl
      · have given := held.erase (worker, key)
        rw [List.erase_cons_head] at given
        exact given
      · change ((worker, key) :: m.arranged).erase (worker, key) = []
        rw [List.erase_cons_head]
        exact arranged
  | waiting due rest =>
      refine ⟨_, m, .none m, loop, clock, ?_, arranged⟩
      rw [carry, List.map_append]
      exact held.trans (List.perm_append_singleton _ _).symm

theorem ask_steps (there : s.At now m) (work : Work ρ ω) (worker : Nat) (w : ω) :
    ∃ events m', Moment.Steps m events m' ∧ (s.ask work now worker w).1.At now m' := by
  rw [ask, Loop.ask, Floor.get, ← there.loop]
  by_cases closed : m.loop.floor.queue.closed = true
  · rw [if_pos closed]
    exact ⟨_, _, .more (.dismiss closed) (.none _), rfl, there.clock, there.held, there.arranged⟩
  -- Nothing comes between, so a worker that is let in is served at once.
  have served := Moment.Step.serve (m := m) worker
  rw [if_neg closed]
  obtain ⟨key, rest, _, same⟩ | ⟨_, same⟩ := m.loop.floor.serve_cases worker
  · rw [same] at served ⊢
    let floor := { m.loop.floor with queue := m.loop.floor.queue.handedOut key rest }
    obtain ⟨events, m', steps, next⟩ :=
      carry_steps (s := { s with loop := { m.loop with floor } })
        (m := { m.onFloor floor with held := (worker, key) :: m.held }) rfl there.clock
        (there.held.cons (worker, key)) there.arranged (work.begin key w).1
    exact ⟨_, m', .more served steps, next⟩
  · rw [same] at served ⊢
    exact ⟨_, _, .more served (.none _), rfl, there.clock, there.held, there.arranged⟩

theorem rouse_of_popWoken? {f : Floor Nat} {worker : Nat} {signal : Signal Nat}
    (pops : f.signal.popWoken? = some (worker, signal)) : f.rouse worker = { f with signal } := by
  rw [Floor.rouse]
  rw [Signal.popWoken?] at pops
  cases woken : f.signal.woken with
  | nil =>
      rw [woken] at pops
      cases pops
  | cons first rest =>
      rw [woken] at pops
      cases pops
      rw [List.erase_cons_head]

/-- What happens next in a shift are steps of its loop. -/
theorem step?_steps {work : Work ρ ω} {w w' : ω} (there : s.At now m)
    (steps : s.step? work now w = some (t, w')) :
    ∃ events m', Moment.Steps m events m' ∧ t.At now m' := by
  cases moves_of_step? steps with
  | @asks worker rest =>
      exact ask_steps (s := { s with asking := rest })
        ⟨there.loop, there.clock, there.held, there.arranged⟩ work worker w
  | runsOut expires =>
      obtain ⟨timer, running, due, rfl⟩ := Floor.exists_runOut_of_expire? expires
      rw [← there.loop] at running
      rw [← there.clock] at due
      refine ⟨_, _, .more (.runOut running due) (.none _), ?_, there.clock, there.held,
        there.arranged⟩
      rw [Moment.onFloor, there.loop]
  | @goesOn job jobs pops =>
      have held := there.held.trans ((popJob?_perm pops).map fun job => (job.worker, job.key))
      exact carry_steps (s := { s with jobs }) there.loop there.clock held there.arranged
        (work.resume job.rest w).1
  | @wakes worker signal pops =>
      refine ⟨_, _, .more (.rouse worker) (.none _), ?_, there.clock, there.held,
        there.arranged⟩
      rw [Moment.onFloor, there.loop, rouse_of_popWoken? pops]

/-- Time passes for a shift as it does for its loop. -/
theorem pass_steps (there : s.At now m) (ms : Nat) :
    ∃ m', Moment.Steps m [.passed ms] m' ∧ s.At (now + ms) m' :=
  ⟨_, .more (.pass ms) (.none _), there.loop, by rw [there.clock], there.held, there.arranged⟩

end Shift

end Steward
