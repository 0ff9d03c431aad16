import Mathlib.Data.List.Nodup
import Steward.Operator
import Steward.Proofs.Attention
import Steward.Proofs.Ceiling
import Steward.Proofs.Settings

/-!
# The pace of the loops

Settings that were accepted give both kinds of records a controller and each loop a worker, and
every look that a reconcile asks for lies ahead, since no interval is zero.  Nothing of the kind is
checked for the two delays after a failure.  If neither is zero, every retry lies ahead, and a key
whose reconcile ended is not handed out again at the same instant on the loop's own account.  If one
is zero, so is every retry delay, and a key whose reconcile keeps failing goes back on the queue at
once, time and again.
-/

namespace Steward

variable {σ α β : Type}

/-! ## What a reconcile asks for -/

namespace Procedure

/-- Wherever the procedure ends, whatever it was answered, its result is as promised. -/
def Yields (post : α → Prop) : Procedure σ α → Prop
  | done a => post a
  | ask _ resume => ∀ answer, (resume answer).Yields post
  | call _ _ _ resume => ∀ ending, (resume ending).Yields post
  | report _ next => next.Yields post

variable {post : β → Prop}

/-- What holds of every result holds of the one that a run comes to. -/
theorem Yields.run {ω : Type} {p : Procedure σ β} (yields : p.Yields post)
    (here : Surroundings σ ω) (perform : (call : Call) → String → σ → ω → call.Ending × ω) (w : ω) :
    post (p.run here perform w).1 := by
  induction p generalizing w with
  | done _ => exact yields
  | ask _ _ ih => exact ih _ (yields _) _
  | call _ _ _ _ ih => exact ih _ (yields _) _
  | report _ _ ih => exact ih yields _

theorem Yields.bind {p : Procedure σ α} {next : α → Procedure σ β}
    (onward : ∀ a, (next a).Yields post) : (p.bind next).Yields post := by
  induction p with
  | done a => exact onward a
  | ask _ _ ih => exact fun answer => ih answer
  | call _ _ _ _ ih => exact fun ending => ih ending
  | report _ _ ih => exact ih

end Procedure

namespace Attempt

/-- Wherever the attempt succeeds, its result is as promised. -/
def Yields (post : β → Prop) (x : Attempt σ β) : Prop :=
  Procedure.Yields (fun result => ∀ b, result = .ok b → post b) x.run

variable {post : β → Prop}

theorem yields_pure {b : β} (holds : post b) : (pure b : Attempt σ β).Yields post := by
  rintro _ ⟨⟩
  exact holds

theorem yields_throw (fault : Fault) : (throw fault : Attempt σ β).Yields post := nofun

theorem Yields.bind {x : Attempt σ α} {f : α → Attempt σ β} (onward : ∀ a, (f a).Yields post) :
    (x >>= f).Yields post := by
  refine Procedure.Yields.bind fun result => ?_
  cases result with
  | ok a => exact onward a
  | error fault => exact yields_throw fault

end Attempt

namespace Controller

open Attempt

variable {c : Controller σ}

/-- If another look is asked for, it is after the interval of some phase. -/
def Asks (c : Controller σ) (outcome : Outcome) : Prop :=
  ∀ delay, outcome.requeueAfter = some delay → ∃ phase, delay = c.requeueAfter phase

theorem asks_finished : c.Asks .finished := nofun

theorem asks_requeueAfter (status : Option Status) (phase : Phase) :
    c.Asks ⟨status, some (c.requeueAfter phase)⟩ := by
  rintro _ ⟨⟩
  exact ⟨phase, rfl⟩

theorem commit_asks (r : Record σ) (t : Transition) : (c.commit r t).Yields c.Asks := by
  have asks := yields_pure (σ := σ) (c.asks_requeueAfter (some (t.apply r.status)) t.phase)
  rw [commit]
  split
  · refine .bind fun _ => ?_
    split
    · exact .bind fun _ => asks
    · exact asks
  · exact asks

theorem release_asks (r : Record σ) : (c.release r).Yields c.Asks := by
  rw [release]
  split
  · exact .bind fun _ => .bind fun _ => yields_pure asks_finished
  · exact yields_pure asks_finished

theorem advanceDeletion_asks (r : Record σ) (progress : DeletionProgress) :
    (c.advanceDeletion r progress).Yields c.Asks := by
  unfold advanceDeletion
  split
  · exact release_asks r
  · exact commit_asks _ _
  · exact commit_asks _ _
  · exact commit_asks _ _

theorem issueDelete_asks (r : Record σ) : (c.issueDelete r).Yields c.Asks := by
  rw [issueDelete]
  refine .bind fun answer => ?_
  split <;> exact advanceDeletion_asks _ _

theorem verifyDelete_asks (r : Record σ) : (c.verifyDelete r).Yields c.Asks := by
  rw [verifyDelete]
  refine .bind fun answer => ?_
  split
  · exact advanceDeletion_asks _ _
  split
  · exact issueDelete_asks r
  · exact advanceDeletion_asks _ _

theorem reconcileDeletion_asks (r : Record σ) (permissions : Permissions) :
    (c.reconcileDeletion r permissions).Yields c.Asks := by
  rw [reconcileDeletion]
  split
  · exact yields_pure asks_finished
  · exact .bind fun _ => release_asks r
  · exact issueDelete_asks r
  · exact verifyDelete_asks r

theorem reconcilePresent_asks (r : Record σ) (permissions : Permissions) :
    (c.reconcilePresent r permissions).Yields c.Asks := by
  rw [reconcilePresent]
  refine .bind fun r => ?_
  split
  · exact commit_asks _ _
  · exact yields_throw _
  refine .bind fun readiness => ?_
  split
  · exact .bind fun t => commit_asks _ _
  · exact commit_asks _ _

/-- Whatever it is answered, a reconcile asks for no other look than after one of the intervals. -/
theorem reconcile_asks (c : Controller σ) (key : Key) : (c.reconcile key).Yields c.Asks := by
  rw [reconcile]
  refine .bind fun found => ?_
  split
  · exact yields_pure asks_finished
  split
  · exact reconcileDeletion_asks _ _
  · exact reconcilePresent_asks _ _

/-- Every look that a reconcile can ask for, whatever its surroundings, lies ahead. -/
def LooksAhead (c : Controller σ) : Prop :=
  ∀ {ω : Type} (here : Procedure.Surroundings σ ω)
    (perform : (call : Call) → String → σ → ω → call.Ending × ω) (key : Key) (w : ω)
    (outcome : Outcome) (delay : Nat),
    ((c.reconcile key).run.run here perform w).1 = .ok outcome →
      outcome.requeueAfter = some delay → 0 < delay

end Controller

namespace Controller

variable {c : Controller σ} {d : Definition σ} {i : Intervals} {base : String}

/-- A controller comes about for positive intervals and a finalizer that has a name. -/
theorem build_eq_ok_iff :
    build d i base = .ok c ↔ i.Positive ∧ d.finalizer ≠ "" ∧
      c = ⟨d, i, Permissions.annotationName base⟩ := by
  by_cases positive : i.Positive
  · have passed : i.validate = .ok i := Intervals.validate_eq_ok_iff.mpr ⟨rfl, positive⟩
    rw [build, passed]
    by_cases unnamed : d.finalizer = ""
    · refine iff_of_false ?_ fun named => named.2.1 unnamed
      simp [bind, Except.bind, unnamed]
    · simp [bind, Except.bind, pure, Except.pure, unnamed, positive, eq_comm]
  · refine iff_of_false (fun built => positive ?_) fun built => positive built.1
    cases checked : i.validate with
    | error fault => simp [build, checked, bind, Except.bind] at built
    | ok j => exact (Intervals.validate_eq_ok_iff.mp checked).2

/-- A controller that was built looks ahead. -/
theorem looksAhead_of_build (built : build d i base = .ok c) : c.LooksAhead := by
  obtain ⟨positive, -, rfl⟩ := build_eq_ok_iff.mp built
  intro ω here perform key w outcome delay ends asks
  -- Every delay is the interval of a phase, and the check has seen all of them.
  obtain ⟨phase, rfl⟩ := (reconcile_asks _ key).run here perform w outcome ends delay asks
  cases phase with
  | pending | inProgress => exact positive.requeueAfter
  | succeeded => exact positive.requeueAfterSuccess
  | failed => exact positive.requeueAfterFailure

end Controller

/-! ## How long a failed key waits -/

namespace LoopSettings

variable {settings : LoopSettings}

/-- Neither delay after a failure is zero. -/
def BacksOff (settings : LoopSettings) : Prop :=
  0 < settings.backoffBase ∧ 0 < settings.backoffMax

/-- One delay of zero is enough to retry at once, after any number of failures. -/
theorem backoff_pos_iff (settings : LoopSettings) (attempt : Nat) :
    0 < settings.backoff attempt ↔ settings.BacksOff := by
  have doubled : 0 < 2 ^ (attempt - 1) := Nat.two_pow_pos _
  have capped (n : Nat) : 0 < Counter.capped n ↔ 0 < n := by
    rw [Counter.capped, Nat.lt_min]
    exact and_iff_left (by decide)
  rw [backoff_eq, Nat.lt_min, Nat.mul_pos_iff_of_pos_right doubled, capped, capped, BacksOff]

end LoopSettings

namespace Loop

variable {l : Loop} {key : Key} {fault : Fault}

theorem delay?_retry (fails : fault.isConflict = false) :
    l.delay? key (.error fault) =
      some (l.settings.backoff (min (l.failureCount key + 1) failureLimit)) := by
  rw [delay?, if_neg (by rw [fails]; exact Bool.false_ne_true)]

theorem delay?_retry_ne_zero (backsOff : l.settings.BacksOff) (fails : fault.isConflict = false) :
    l.delay? key (.error fault) ≠ some 0 := by
  rw [delay?_retry fails]
  intro none
  have ahead :=
    (l.settings.backoff_pos_iff (min (l.failureCount key + 1) failureLimit)).mpr backsOff
  exact Nat.ne_of_gt ahead (Option.some.inj none)

/-- A retry that lies ahead leaves the keys that are on the queue as they are. -/
theorem arrange_retry (backsOff : l.settings.BacksOff) (fails : fault.isConflict = false)
    (now : Nat) (key : Key) :
    (l.arrange now key (.error fault)).floor.queue.waiting = l.floor.queue.waiting ∧
      (l.arrange now key (.error fault)).floor.queue.dirty = l.floor.queue.dirty := by
  have later : l.delay? key (.error fault) ≠ some 0 := delay?_retry_ne_zero backsOff fails
  rw [queue_arrange]
  rw [delay?_retry fails] at later ⊢
  obtain ⟨zero, _⟩ | ⟨_, scheduled, timers, same⟩ :=
    l.floor.queue.addAfter_cases now
      (l.settings.backoff (min (l.failureCount key + 1) failureLimit)) key
  · exact absurd (congrArg some zero) later
  · rw [Option.elim, same]
    exact ⟨rfl, rfl⟩

/-- A retry without a delay puts the key back at once. -/
theorem arrange_retry_at_once (spins : ¬ l.settings.BacksOff) (fails : fault.isConflict = false)
    (now : Nat) (key : Key) :
    (l.arrange now key (.error fault)).floor.queue = l.floor.queue.add key := by
  have none := Nat.eq_zero_of_not_pos fun ahead =>
    spins ((l.settings.backoff_pos_iff (min (l.failureCount key + 1) failureLimit)).mp ahead)
  rw [queue_arrange, delay?_retry fails, none]
  obtain ⟨_, same⟩ | ⟨later, _⟩ := l.floor.queue.addAfter_cases now 0 key
  · exact same
  · exact absurd rfl later

end Loop

/-! ## A key that is not handed out again at once -/

namespace WorkQueue

variable {q : WorkQueue} {key k : Key} {now : Nat}

/-- The key is not marked, and no deadline of it has come. -/
structure Rests (q : WorkQueue) (key : Key) (now : Nat) : Prop where
  clean : key ∉ q.dirty
  ahead : ∀ deadline, q.scheduled[key]? = some deadline → now < deadline

theorem Rests.add (rests : q.Rests key now) (other : k ≠ key) : (q.add k).Rests key now where
  clean := by
    rw [WorkQueue.add]
    split
    · exact rests.clean
    · rw [mem_dirty_insert]
      exact not_or.mpr ⟨other.symm, rests.clean⟩
  ahead := by
    rw [scheduled_add]
    exact rests.ahead

theorem Rests.addAfter (rests : q.Rests key now) {delay : Nat} (calm : k = key → delay ≠ 0) :
    (q.addAfter now delay k).Rests key now := by
  rw [WorkQueue.addAfter, schedule]
  split
  · exact rests
  split
  case isTrue zero => exact rests.add fun same => calm same zero
  case isFalse later =>
    split
    · exact rests
    · refine ⟨rests.clean, fun deadline scheduled => ?_⟩
      rw [Std.ExtTreeMap.getElem?_insert] at scheduled
      by_cases same : k = key
      · rw [if_pos (by simpa using same)] at scheduled
        cases scheduled
        exact Nat.lt_add_of_pos_right (Nat.pos_of_ne_zero later)
      · rw [if_neg (by simpa using same)] at scheduled
        exact rests.ahead deadline scheduled

/-- A timer that runs out adds the key only if its deadline has come. -/
theorem Rests.expire (rests : q.Rests key now) {timer : QueueTimer} (due : timer.due ≤ now) :
    (q.expire timer).Rests key now := by
  rw [WorkQueue.expire]
  split
  case isTrue stands =>
    have other : timer.key ≠ key := by
      intro same
      rw [same] at stands
      exact Nat.not_lt_of_le due (rests.ahead timer.due stands)
    refine Rests.add ⟨rests.clean, fun deadline scheduled => ?_⟩ other
    rw [Std.ExtTreeMap.getElem?_erase, if_neg (by simpa using other)] at scheduled
    exact rests.ahead deadline scheduled
  case isFalse => exact rests

theorem Rests.handedOut (rests : q.Rests key now) (k : Key) (rest : List Key) :
    (q.handedOut k rest).Rests key now where
  clean := fun marked => rests.clean (mem_erase_iff.mp marked).2
  ahead := rests.ahead

end WorkQueue

/-- Time passes, or somebody adds the key. -/
def LoopEvent.Stirs (key : Key) : LoopEvent → Prop
  | .passed _ => True
  | .added k => k = key
  | .deferred k delay => k = key ∧ delay = 0
  | _ => False

namespace Moment

variable {m m' n : Moment} {e : LoopEvent} {events : List LoopEvent} {key : Key} {w : Nat}

/-- The key rests, and whoever has it is through with it. -/
structure Resting (m : Moment) (key : Key) : Prop where
  sound : m.Sound
  rests : m.queue.Rests key m.clock
  through : ∀ w, (w, key) ∈ m.held → (w, key) ∈ m.arranged

theorem Sound.nodup_held (sound : m.Sound) : m.held.Nodup := sound.held_nodup.of_map _

/-- A key that waits is marked, so one that rests does not wait. -/
theorem Resting.ne_of_waiting (resting : m.Resting key) {k : Key} {rest : List Key}
    (first : m.queue.waiting = k :: rest) : k ≠ key := by
  rintro rfl
  exact resting.rests.clean (resting.sound.marked k (first ▸ List.mem_cons_self))

/-- A key that rests is not handed out. -/
theorem Resting.unasked (resting : m.Resting key) (step : Step m e m') (w : Nat) :
    e ≠ .asked w (.key key) := by
  intro asked
  cases step with
  | serve w' =>
      obtain ⟨k, rest, first, same⟩ | ⟨_, same⟩ := m.loop.floor.serve_cases w'
      · rw [same] at asked
        cases asked
        exact resting.ne_of_waiting first rfl
      · rw [same] at asked
        cases asked
  | _ => cases asked

/-- A key that rests goes on resting until something stirs it. -/
theorem Resting.step (resting : m.Resting key) (step : Step m e m') (calm : ¬ e.Stirs key) :
    m'.Resting key := by
  have sound := step.sound resting.sound
  cases step with
  | pass => exact absurd trivial calm
  | add k => exact ⟨sound, resting.rests.add calm, resting.through⟩
  | addAfter k delay =>
      have rests := resting.rests.addAfter (k := k) fun same zero => calm ⟨same, zero⟩
      exact ⟨sound, rests, resting.through⟩
  | @runOut timer running due =>
      have rests : { m.queue with timers := m.queue.timers.erase timer }.Rests key m.clock :=
        ⟨resting.rests.clean, resting.rests.ahead⟩
      exact ⟨sound, rests.expire due, resting.through⟩
  | rouse | dismiss | stop =>
      exact ⟨sound, ⟨resting.rests.clean, resting.rests.ahead⟩, resting.through⟩
  | serve w =>
      obtain ⟨k, rest, first, same⟩ | ⟨_, same⟩ := m.loop.floor.serve_cases w
      · rw [same] at sound ⊢
        refine ⟨sound, resting.rests.handedOut k rest, fun w' holds => ?_⟩
        obtain taken | old := List.mem_cons.mp holds
        · cases taken
          exact absurd rfl (resting.ne_of_waiting first)
        · exact resting.through w' old
      · rw [same] at sound ⊢
        exact ⟨sound, ⟨resting.rests.clean, resting.rests.ahead⟩, resting.through⟩
  | @finish w k look holds busy =>
      -- Whoever has the key is through with it, so the reconcile that ends is of another one.
      have other : k ≠ key := by
        rintro rfl
        exact busy (resting.through w holds)
      refine ⟨sound, ?_, fun w' held => List.mem_cons_of_mem _ (resting.through w' held)⟩
      change WorkQueue.Rests (m.loop.arrange m.clock k look).floor.queue key m.clock
      rw [Loop.queue_arrange]
      cases m.loop.delay? k look with
      | none => exact resting.rests
      | some delay => exact resting.rests.addAfter fun same => absurd same other
  | @giveBack w k =>
      refine ⟨sound, ⟨resting.rests.clean, resting.rests.ahead⟩, fun w' held => ?_⟩
      have there := (resting.sound.nodup_held.mem_erase_iff).mp held
      exact (List.mem_erase_of_ne there.1).mpr (resting.through w' there.2)

theorem Resting.steps (resting : m.Resting key) (steps : Steps m events n)
    (calm : ∀ e ∈ events, ¬ e.Stirs key) : ∀ w, .asked w (.key key) ∉ events := by
  induction steps with
  | none => exact fun w => List.not_mem_nil
  | more step _ ih =>
      have next := resting.step step (calm _ List.mem_cons_self)
      intro w asked
      obtain now | later := List.mem_cons.mp asked
      · exact resting.unasked step w now.symm
      · exact ih next (fun e mem => calm e (List.mem_cons_of_mem _ mem)) w later

/-- A key whose reconcile asks for no look at once is not handed out again at that instant, unless
it had been added before, or somebody adds it. -/
theorem unasked_after_look (sound : m.Sound) {look : Look} (ended : Step m (.ended w key look) m')
    (later : m.loop.delay? key look ≠ some 0) (rests : m.queue.Rests key m.clock)
    (after : Steps m' events n) (calm : ∀ e ∈ events, ¬ e.Stirs key) :
    ∀ w, .asked w (.key key) ∉ events := by
  refine Resting.steps ⟨ended.sound sound, ?_, ?_⟩ after calm
  · cases ended
    change WorkQueue.Rests (m.loop.arrange m.clock key look).floor.queue key m.clock
    rw [Loop.queue_arrange]
    cases asks : m.loop.delay? key look with
    | none => exact rests
    | some delay => exact rests.addAfter fun _ zero => later (by rw [asks, zero])
  · intro w' holds'
    cases ended with
    | finish _ holds =>
        have same := List.inj_on_of_nodup_map sound.held_nodup holds' holds rfl
        rw [same]
        exact List.mem_cons_self

/-- A loop keeps its settings. -/
theorem Step.settings_eq (step : Step m e m') : m'.loop.settings = m.loop.settings := by
  cases step with
  | finish look =>
      cases look with
      | ok => rfl
      | error fault =>
          change (m.loop.arrange m.clock _ _).settings = _
          rw [Loop.arrange]
          split <;> rfl
  | _ => rfl

theorem Steps.settings_eq (steps : Steps m events n) : n.loop.settings = m.loop.settings := by
  induction steps with
  | none => rfl
  | more step _ ih => exact ih.trans step.settings_eq

end Moment

/-! ## Operators with accepted settings -/

namespace Settings

variable {s : Settings} {text : String}

/-- An operator at its beginning, with these controllers. -/
def opening (s : Settings) (backend : Backend) (plain : Controller Plain)
    (linked : Controller Linked) : Operator :=
  { site := { backend }, plain := .start plain s.loop, linked := .start linked s.loop }

/-- How operators with these settings go about their work. -/
structure KeepsPace (s : Settings) : Prop where
  /-- Both controllers are built, whatever the backend, and the loops begin. -/
  starts : ∃ plain linked,
    Controller.build Plain.definition s.intervals s.annotationBase = .ok plain ∧
    Controller.build Linked.definition s.intervals s.annotationBase = .ok linked ∧
    ∀ backend, Operator.startWith s backend = .ok (s.opening backend plain linked).settle
  /-- At the beginning of a loop a worker is about to ask for a key. -/
  staffed : ∀ ρ : Type, 0 < (Shift.start s.loop : Shift ρ).asking.length ∧
    (Shift.start s.loop : Shift ρ).loop.ending? = none
  /-- Every look that a reconcile asks for lies ahead. -/
  looks : ∀ {kind : Kind} {c : Controller kind.Spec},
    Controller.build kind.definition s.intervals s.annotationBase = .ok c → c.LooksAhead
  /-- The retries lie ahead if neither delay is zero. -/
  retries : ∀ attempt, 0 < s.loop.backoff attempt ↔ s.loop.BacksOff
  /-- Then a fault other than a stale write leaves the keys on the queue as they are, at any point
  of a run, and until the clock moves on or somebody adds the key it is not handed out again. -/
  rests : s.loop.BacksOff → ∀ {past : List LoopEvent} {m m' : Moment} {w : Nat} {key : Key}
    {fault : Fault}, Moment.Steps { loop := { settings := s.loop } } past m →
    Moment.Step m (.ended w key (.error fault)) m' → fault.isConflict = false →
    (m'.queue.waiting = m.queue.waiting ∧ m'.queue.dirty = m.queue.dirty) ∧
    ∀ {events n}, m.queue.Rests key m.clock → Moment.Steps m' events n →
      (∀ e ∈ events, ¬ e.Stirs key) → ∀ w', .asked w' (.key key) ∉ events
  /-- Otherwise such a fault puts the key back at once, however often it failed before. -/
  spins : ¬ s.loop.BacksOff → ∀ {past : List LoopEvent} {m m' : Moment} {w : Nat} {key : Key}
    {fault : Fault}, Moment.Steps { loop := { settings := s.loop } } past m →
    Moment.Step m (.ended w key (.error fault)) m' → fault.isConflict = false →
    m'.queue = m.queue.add key

theorem Valid.starts (valid : s.Valid) : ∃ plain linked,
    Controller.build Plain.definition s.intervals s.annotationBase = .ok plain ∧
    Controller.build Linked.definition s.intervals s.annotationBase = .ok linked ∧
    ∀ backend, Operator.startWith s backend = .ok (s.opening backend plain linked).settle := by
  have built (kind : Kind) (named : kind.definition.finalizer ≠ "") :
      Controller.build kind.definition s.intervals s.annotationBase =
        .ok ⟨kind.definition, s.intervals, Permissions.annotationName s.annotationBase⟩ :=
    Controller.build_eq_ok_iff.mpr ⟨valid.intervals, named, rfl⟩
  have plain := built .plain (by decide)
  have linked := built .linked (by decide)
  refine ⟨_, _, plain, linked, fun backend => ?_⟩
  simp only [Operator.startWith, plain, linked]
  rfl

theorem Valid.staffed (valid : s.Valid) (ρ : Type) :
    0 < (Shift.start s.loop : Shift ρ).asking.length ∧
      (Shift.start s.loop : Shift ρ).loop.ending? = none := by
  have some : s.loop.workers ≠ 0 := Nat.ne_of_gt valid.workers
  refine ⟨by simpa [Shift.start] using valid.workers, ?_⟩
  rw [Shift.start, Loop.ending?, if_neg some]
  exact if_neg fun gone => some gone.symm

/-- Operators with accepted settings keep pace, but for retries whose delay was set to zero. -/
theorem keepsPace_of_ofToml (accepted : ofToml text = .ok s) : s.KeepsPace where
  starts := (valid_of_ofToml accepted).starts
  staffed := (valid_of_ofToml accepted).staffed
  looks := Controller.looksAhead_of_build
  retries := s.loop.backoff_pos_iff
  rests backsOff past m m' w key fault before ended fails := by
    have sound : m.Sound := before.sound (Moment.sound_start s.loop)
    have backsOff : m.loop.settings.BacksOff := before.settings_eq.symm ▸ backsOff
    constructor
    · cases ended
      exact Loop.arrange_retry backsOff fails m.clock key
    · intro events n rests after calm
      exact Moment.unasked_after_look sound ended (Loop.delay?_retry_ne_zero backsOff fails) rests
        after calm
  spins spins past m m' w key fault before ended fails := by
    have spins : ¬ m.loop.settings.BacksOff := before.settings_eq.symm ▸ spins
    cases ended
    exact Loop.arrange_retry_at_once spins fails m.clock key

/-- One worker, and the shortest delays that are not zero. -/
theorem keepsPace_of_ofToml_of_briefDelays :
    ∃ s, ofToml "[loop]\nworkers = 1\nerror_backoff_base = 1\nerror_backoff_max = 1\n" = .ok s ∧
      s.loop.BacksOff ∧ s.KeepsPace := by
  have accepted : ofToml "[loop]\nworkers = 1\nerror_backoff_base = 1\nerror_backoff_max = 1\n" =
      .ok { loop := { workers := 1, backoffBase := 1, backoffMax := 1 } } :=
    ofToml_eq_ok (by decide +kernel)
  exact ⟨_, accepted, ⟨Nat.one_pos, Nat.one_pos⟩, keepsPace_of_ofToml accepted⟩

/-- A loop that took a key and was told that the store is down. -/
def failedSample (settings : LoopSettings) : Loop :=
  (({ settings, floor := ({} : Floor Nat).add Moment.sampleKey } : Loop).ask 0).2.finish 0
    Moment.sampleKey (.error (.store "get" "down"))

/-- A base delay of zero is accepted; then no retry waits, and the key that failed is back on the
queue at the instant at which it failed. -/
theorem spins_of_zeroBase :
    ∃ s, ofToml "[loop]\nerror_backoff_base = 0\n" = .ok s ∧
      (∀ attempt, ¬ 0 < s.loop.backoff attempt) ∧
      (failedSample s.loop).floor.queue.waiting = [Moment.sampleKey] := by
  have accepted : ofToml "[loop]\nerror_backoff_base = 0\n" =
      .ok { loop := { backoffBase := 0 } } :=
    ofToml_eq_ok (by decide +kernel)
  refine ⟨_, accepted, fun attempt ahead => ?_, by decide +kernel⟩
  exact Nat.lt_irrefl 0 ((LoopSettings.backoff_pos_iff _ attempt).mp ahead).1

end Settings

end Steward
