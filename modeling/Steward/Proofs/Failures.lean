import Steward.Proofs.Pace
import Steward.Proofs.Triggers

/-!
# Failures in a row

The failures of all keys are counted in one table, in whatever order the workers come back.  Read
backwards, the history of a loop tells what the table should say of a key: how many of its
reconciles failed since the last one that succeeded.  Stale writes do not count among them, nor do
they start the count anew, and each worker touches the entry of its own key alone.  So every retry
waits for as long as the row of failures of its own key demands.  A stale write is not counted but
marks its key, which its worker still holds; nobody can take the mark away before the key is given
back, and then it waits.
-/

namespace Steward

namespace LoopEvent

/-- A reconcile of the key succeeded. -/
def clears (key : Key) : LoopEvent → Bool
  | .ended _ k (.ok _) => k = key
  | _ => false

/-- A reconcile of the key failed, and not because of a stale write. -/
def fails (key : Key) : LoopEvent → Bool
  | .ended _ k (.error fault) => k = key ∧ ¬ fault.isConflict
  | _ => false

/-- How often the key failed since a reconcile of it succeeded, the oldest event first. -/
def failuresInARow (key : Key) (events : List LoopEvent) : Nat :=
  (events.reverse.takeWhile fun e => !e.clears key).countP (fails key)

variable {e : LoopEvent} {key k : Key} {events : List LoopEvent} {w : Nat}

@[simp]
theorem clears_ok {requeue : Option Nat} :
    (ended w k (.ok requeue)).clears key = decide (k = key) := rfl

@[simp]
theorem clears_error {fault : Fault} : (ended w k (.error fault)).clears key = false := rfl

@[simp]
theorem fails_ok {requeue : Option Nat} : (ended w k (.ok requeue)).fails key = false := rfl

@[simp]
theorem fails_error {fault : Fault} :
    (ended w k (.error fault)).fails key = decide (k = key ∧ ¬ fault.isConflict) := rfl

theorem failuresInARow_concat (key : Key) (events : List LoopEvent) (e : LoopEvent) :
    failuresInARow key (events ++ [e]) =
      if e.clears key then 0
      else if e.fails key then failuresInARow key events + 1
      else failuresInARow key events := by
  rw [failuresInARow, List.reverse_append, List.reverse_singleton, List.singleton_append,
    List.takeWhile_cons]
  by_cases clears : e.clears key = true
  · simp only [clears, Bool.not_true, Bool.false_eq_true, if_false, if_true, List.countP_nil]
  · rw [Bool.not_eq_true] at clears
    simp only [clears, Bool.not_false, Bool.false_eq_true, if_false, if_true, List.countP_cons]
    rw [← failuresInARow]
    split <;> rfl

end LoopEvent

namespace Moment

open LoopEvent

variable {m m' n n' : Moment} {e : LoopEvent} {events past : List LoopEvent} {key : Key} {w : Nat}

/-! ## The table -/

/-- A reconcile that ends concerns the entry of its own key, and no other event concerns any. -/
theorem Step.failures (step : Step m e m') (key : Key) :
    m'.loop.failures[key]? =
      if e.clears key then none
      else if e.fails key then some (min (m.loop.failureCount key + 1) Loop.failureLimit)
      else m.loop.failures[key]? := by
  cases step with
  | @finish w k look =>
      change (m.loop.arrange m.clock k look).failures[key]? = _
      cases look with
      | ok requeue =>
          rw [Loop.arrange, clears_ok, fails_ok, Std.ExtTreeMap.getElem?_erase]
          by_cases same : k = key <;> simp [same]
      | error fault =>
          rw [Loop.arrange, clears_error, fails_error]
          by_cases conflict : fault.isConflict = true
          · simp [conflict]
          · by_cases same : k = key <;> simp [conflict, same, Std.ExtTreeMap.getElem?_insert]
  | _ => rfl

/-- The table counts up to its limit how often each key failed in a row. -/
def Counts (m : Moment) (events : List LoopEvent) : Prop :=
  ∀ key, m.loop.failureCount key = min (failuresInARow key events) Loop.failureLimit

theorem counts_start (settings : LoopSettings) : Counts { loop := { settings } } [] := by
  intro key
  have none : (∅ : KeyMap Nat)[key]? = none := Std.ExtTreeMap.getElem?_empty
  change (∅ : KeyMap Nat)[key]?.getD 0 = _
  rw [none]
  rfl

theorem Step.counts (step : Step m e m') (counts : m.Counts past) :
    m'.Counts (past ++ [e]) := by
  intro key
  have before := counts key
  rw [failuresInARow_concat, Loop.failureCount, step.failures key]
  split
  · rw [Nat.zero_min]
    rfl
  split
  · rw [Option.getD_some, before]
    omega
  · exact before

theorem Steps.counts (steps : Steps m events n) (counts : m.Counts past) :
    n.Counts (past ++ events) := by
  induction steps generalizing past with
  | none =>
      rw [List.append_nil]
      exact counts
  | more step _ ih =>
      rw [List.append_cons]
      exact ih (step.counts counts)

/-! ## Marks on keys that are held -/

/-- A worker holds the key, and it was added meanwhile. -/
structure Recalled (m : Moment) (w : Nat) (key : Key) : Prop where
  sound : m.Sound
  holds : (w, key) ∈ m.held
  dirty : key ∈ m.queue.dirty

/-- A worker holds its key until it gives it back. -/
theorem Step.mem_held (step : Step m e m') (holds : (w, key) ∈ m.held)
    (kept : e ≠ .returned w key) : (w, key) ∈ m'.held := by
  cases step with
  | serve v => exact Crew.mem_heldAfter holds nofun
  | @giveBack v k =>
      refine Crew.mem_heldAfter (e := .returned v k) holds ?_
      rintro ⟨⟩
      exact kept rfl
  | _ => exact holds

/-- A key that is held does not wait, so nobody is handed it and it stays marked. -/
theorem Recalled.step (recalled : m.Recalled w key) (step : Step m e m')
    (kept : e ≠ .returned w key) : m'.Recalled w key := by
  refine ⟨step.sound recalled.sound, step.mem_held recalled.holds kept, ?_⟩
  obtain ⟨event, turn, -⟩ := step.turn
  refine turn.dirty_of_dirty recalled.dirty fun hands => ?_
  obtain ⟨rest, first, -⟩ := turn.of_handed hands
  have waits : key ∈ m.queue.waiting := first ▸ List.mem_cons_self
  have busy := (recalled.sound.mem_held key).mpr (List.mem_map_of_mem recalled.holds)
  exact recalled.sound.free key waits busy

theorem Recalled.steps (recalled : m.Recalled w key) (steps : Steps m events n)
    (kept : .returned w key ∉ events) : n.Recalled w key := by
  induction steps with
  | none => exact recalled
  | more step _ ih =>
      have next := recalled.step step fun same => kept (same ▸ List.mem_cons_self)
      exact ih next fun later => kept (List.mem_cons_of_mem _ later)

/-- When it is given back, the key waits. -/
theorem Recalled.waits (recalled : m.Recalled w key) (step : Step m (.returned w key) m') :
    key ∈ m'.queue.waiting := by
  cases step
  change key ∈ (m.queue.done key).waiting
  obtain ⟨clean, -⟩ | ⟨-, last⟩ := m.queue.waiting_done key
  · exact absurd recalled.dirty clean
  · rw [last]
    exact List.mem_concat_self

/-- A stale write recalls its key. -/
theorem recalled_of_conflict {fault : Fault} (sound : m.Sound) (opened : m.queue.closed = false)
    (ended : Step m (.ended w key (.error fault)) m') (conflict : fault.isConflict = true) :
    m'.Recalled w key := by
  refine ⟨ended.sound sound, ?_, ?_⟩
  · cases ended with
    | finish look holds => exact holds
  · cases ended
    change key ∈ (m.loop.arrange m.clock key (.error fault)).floor.queue.dirty
    rw [Loop.arrange, if_pos conflict]
    exact (WorkQueue.mem_dirty_add opened).mpr (.inl rfl)

/-! ## What a reconcile that ends leads to -/

/-- A retry is put off for as long as the row of failures demands. -/
theorem queue_of_failure {settings : LoopSettings} {fault : Fault}
    (before : Steps { loop := { settings } } past m)
    (ended : Step m (.ended w key (.error fault)) m') (fails : fault.isConflict = false) :
    m'.queue = m.queue.addAfter m.clock
      (settings.backoff (min (failuresInARow key (past ++ [.ended w key (.error fault)]))
        Loop.failureLimit)) key := by
  have counted := before.counts (counts_start settings) key
  rw [List.nil_append] at counted
  have another : failuresInARow key (past ++ [.ended w key (.error fault)]) =
      failuresInARow key past + 1 := by
    rw [failuresInARow_concat]
    simp [fails]
  have row : min (m.loop.failureCount key + 1) Loop.failureLimit =
      min (failuresInARow key (past ++ [.ended w key (.error fault)])) Loop.failureLimit := by
    rw [counted, another]
    omega
  have same : m.loop.settings = settings := before.settings_eq
  cases ended
  change (m.loop.arrange m.clock key (.error fault)).floor.queue = _
  rw [Loop.queue_arrange, Loop.delay?_retry fails, row, same]
  rfl

/-- Before the loop is stopped, whatever its workers did so far: a failure puts the next look at the
key off by the delay for as many failures as there were in a row, this one included, and the key is
to be added by then.  A stale write leaves all counts alone, and whatever happens meanwhile, the key
waits as soon as its worker gives it back.  A success forgets the count of the key.  The counts of
other keys are left alone in each case. -/
theorem retries_by_own_failures {settings : LoopSettings} {look : Look}
    (before : Steps { loop := { settings } } past m) (ended : Step m (.ended w key look) m')
    (opened : m.queue.closed = false) :
    (∀ fault, look = .error fault → fault.isConflict = false →
      ∃ delay, delay = settings.backoff (min (failuresInARow key (past ++ [.ended w key look]))
          Loop.failureLimit) ∧
        m'.queue = m.queue.addAfter m.clock delay key ∧
        m'.queue.Upcoming key (m.clock + delay)) ∧
    (∀ fault, look = .error fault → fault.isConflict = true →
      m'.loop.failures = m.loop.failures ∧
      ∀ {events n n'}, Steps m' events n → .returned w key ∉ events →
        Step n (.returned w key) n' → key ∈ n'.queue.waiting) ∧
    (∀ requeue, look = .ok requeue → m'.loop.failures[key]? = none) ∧
    ∀ k, k ≠ key → m'.loop.failures[k]? = m.loop.failures[k]? := by
  refine ⟨?_, ?_, ?_, fun k other => ?_⟩
  · rintro fault rfl fails
    have queue := queue_of_failure before ended fails
    refine ⟨_, rfl, queue, ?_⟩
    rw [queue]
    exact WorkQueue.upcoming_addAfter opened m.clock _
  · rintro fault rfl conflict
    constructor
    · cases ended
      change (m.loop.arrange m.clock key (.error fault)).failures = _
      rw [Loop.arrange, if_pos conflict]
    · intro events n n' after kept returned
      have sound : m.Sound := before.sound (sound_start settings)
      have recalled := recalled_of_conflict sound opened ended conflict
      exact (recalled.steps after kept).waits returned
  · rintro requeue rfl
    rw [ended.failures key, clears_ok, if_pos (decide_eq_true rfl)]
  · rw [ended.failures k]
    cases look <;> simp [other.symm]

def otherKey : Key := ⟨"default", "api"⟩

def storeDown : Fault := .store "get" "down"

def staleWrite : Fault := .conflict sampleKey 1 2

/-- A reconcile of the key fails, and the next one comes upon a stale write.  Before worker 0 gives
the key back, worker 1 fails with another key.  Then worker 0 takes its key once more. -/
def rowSample : List LoopEvent :=
  [.added sampleKey, .asked 0 (.key sampleKey), .ended 0 sampleKey (.error storeDown),
    .returned 0 sampleKey, .passed 100, .ranOut ⟨100, sampleKey⟩, .asked 0 (.key sampleKey),
    .ended 0 sampleKey (.error staleWrite), .added otherKey,
    .asked 1 (.key otherKey), .ended 1 otherKey (.error storeDown), .returned 0 sampleKey,
    .asked 0 (.key sampleKey)]

theorem steps_rowSample :
    ∃ m, Steps { loop := {} } rowSample m ∧ m.queue.closed = false ∧ (0, sampleKey) ∈ m.held ∧
      (1, otherKey) ∈ m.held ∧ m.arranged = [(1, otherKey)] := by
  have failed := (steps_takenSample.concat (.finish (.error storeDown) List.mem_cons_self
    nofun)).concat (.giveBack List.mem_cons_self List.mem_cons_self)
  have again := ((failed.concat (.pass 100)).concat
    (.runOut (show (⟨100, sampleKey⟩ : QueueTimer) ∈ _ by decide +kernel)
      (by decide +kernel))).concat (.serve 0)
  have stale := again.concat (.finish (.error staleWrite) List.mem_cons_self nofun)
  have beside := ((stale.concat (.add otherKey)).concat (.serve 1)).concat
    (.finish (.error storeDown) List.mem_cons_self (by decide +kernel))
  have row := (beside.concat (.giveBack (List.mem_cons_of_mem _ List.mem_cons_self)
    (List.mem_cons_of_mem _ List.mem_cons_self))).concat (.serve 0)
  exact ⟨_, row, rfl, List.mem_cons_self, List.mem_cons_of_mem _ List.mem_cons_self, rfl⟩

/-- The second failure of the key puts it off by twice the base delay, whatever happened in between,
and leaves the count of the other key alone.  After a stale write instead, the key waits as soon as
it is given back, even if the other key is given back and the loop stopped before; and after a
success its failures are forgotten. -/
theorem retries_by_own_failures_of_sample :
    ∃ m, Steps { loop := {} } rowSample m ∧
      (∃ failed, Step m (.ended 0 sampleKey (.error storeDown)) failed ∧
        failed.queue = m.queue.addAfter m.clock 200 sampleKey ∧
        failed.loop.failures[otherKey]? = m.loop.failures[otherKey]?) ∧
      (∃ stale n n', Step m (.ended 0 sampleKey (.error staleWrite)) stale ∧
        stale.loop.failures = m.loop.failures ∧
        Steps stale [.returned 1 otherKey, .stopped] n ∧ Step n (.returned 0 sampleKey) n' ∧
        sampleKey ∈ n'.queue.waiting) ∧
      ∃ through, Step m (.ended 0 sampleKey (.ok none)) through ∧
        through.loop.failures[sampleKey]? = none := by
  obtain ⟨m, before, opened, holds, other, arranged⟩ := steps_rowSample
  have busy : (0, sampleKey) ∉ m.arranged := by
    rw [arranged]
    decide
  have ended (look : Look) : Step m (.ended 0 sampleKey look) _ := .finish look holds busy
  refine ⟨m, before, ?failure, ?stale, ?success⟩
  case failure =>
    obtain ⟨fails, -, -, others⟩ :=
      retries_by_own_failures before (ended (.error storeDown)) opened
    obtain ⟨delay, row, queue, -⟩ := fails _ rfl rfl
    have doubled : delay = 200 := row.trans (by decide +kernel)
    exact ⟨_, ended _, doubled ▸ queue, others otherKey (by decide)⟩
  case stale =>
    have conflict := ended (.error staleWrite)
    obtain ⟨-, stale, -⟩ := retries_by_own_failures before conflict opened
    obtain ⟨counts, waits⟩ := stale _ rfl rfl
    have other_ne : (0, sampleKey) ≠ (1, otherKey) := by decide
    have through : (1, otherKey) ∈ (0, sampleKey) :: m.arranged := by
      rw [arranged]
      exact List.mem_cons_of_mem _ List.mem_cons_self
    have given : Step
        { m with
          loop := m.loop.arrange m.clock sampleKey (.error staleWrite)
          arranged := (0, sampleKey) :: m.arranged }
        (.returned 1 otherKey) _ := .giveBack other through
    have after := Steps.more given (.more .stop (.none _))
    have still : (0, sampleKey) ∈ m.held.erase (1, otherKey) :=
      (List.mem_erase_of_ne other_ne).mpr holds
    have own : (0, sampleKey) ∈ ((0, sampleKey) :: m.arranged).erase (1, otherKey) :=
      (List.mem_erase_of_ne other_ne).mpr List.mem_cons_self
    exact ⟨_, _, _, conflict, counts, after, .giveBack still own,
      waits after (by simp) (.giveBack still own)⟩
  case success =>
    obtain ⟨-, -, forgets, -⟩ := retries_by_own_failures before (ended (.ok none)) opened
    exact ⟨_, ended _, forgets none rfl⟩

end Moment

end Steward
