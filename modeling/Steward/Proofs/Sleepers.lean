import Steward.Proofs.Deadlines
import Steward.Proofs.Operator
import Steward.Proofs.Triggers

/-!
# Workers are served in turn

A worker that found no key sleeps until it is woken, and the signal that wakes it says nothing of the
keys: a permit may be kept for a key that is long gone, and a worker that was woken has yet to ask.
Between those who left and those who sleep stand the workers that were woken, in the order in which
they came, and while the queue is open there is a key for each of them.  So when nothing is left to
do at an instant, all of them have left with a key, and workers sleep beside an empty queue only.
When the queue is closed everyone is woken, and leaves without a key.
-/

namespace Steward

variable {ω : Type}

/-! ## What wakes workers -/

namespace Signal

/-- The workers that have not left, in the order in which they are served. -/
def lineup (s : Signal ω) : List ω := s.woken ++ s.sleeping

variable (s : Signal ω)

@[simp]
theorem lineup_notifyOne : s.notifyOne.lineup = s.lineup := by
  rw [notifyOne]
  cases sleeping : s.sleeping with
  | nil => simp [lineup, sleeping]
  | cons w rest => simp [lineup, sleeping]

@[simp]
theorem lineup_notifyAll : s.notifyAll.lineup = s.lineup := List.append_nil _

@[simp]
theorem lineup_sleep (w : ω) : (s.sleep w).lineup = s.lineup ++ [w] :=
  (List.append_assoc _ _ _).symm

theorem popWoken?_eq_none_iff : s.popWoken? = none ↔ s.woken = [] := by
  rw [popWoken?]
  cases s.woken <;> simp

end Signal

namespace WorkQueue

/-- As many keys wait in `q'` as in `q`, or one more. -/
def Extends (q q' : WorkQueue) : Prop := q.Grows q' ∧ q.waiting.length ≤ q'.waiting.length

variable (q : WorkQueue)

theorem extends_add (key : Key) : q.Extends (q.add key) := by
  refine ⟨q.grows_add key, ?_⟩
  obtain same | ⟨_, last⟩ := q.waiting_add key
  · exact Nat.le_of_eq (congrArg List.length same.symm)
  · rw [last, List.length_append]
    exact Nat.le_add_right _ _

theorem extends_addAfter (now delay : Nat) (key : Key) : q.Extends (q.addAfter now delay key) := by
  refine ⟨q.grows_addAfter now delay key, ?_⟩
  obtain ⟨_, same⟩ | ⟨_, _, _, same⟩ := q.addAfter_cases now delay key
  · rw [same]
    exact (q.extends_add key).2
  · have kept : (q.addAfter now delay key).waiting = q.waiting := by rw [same]
    exact Nat.le_of_eq (congrArg List.length kept.symm)

theorem extends_expire (timer : QueueTimer) : q.Extends (q.expire timer) := by
  refine ⟨q.grows_expire timer, ?_⟩
  rw [expire]
  split
  · exact (extends_add { q with scheduled := q.scheduled.erase timer.key } timer.key).2
  · exact Nat.le_refl _

/-- A queue that is closed takes no key. -/
theorem waiting_expire {q : WorkQueue} (closed : q.closed = true) (timer : QueueTimer) :
    (q.expire timer).waiting = q.waiting := by
  rw [expire]
  split
  · have erased : { q with scheduled := q.scheduled.erase timer.key }.closed = true := closed
    rw [add_eq_self (.inl erased)]
  · rfl

theorem extends_done (key : Key) : q.Extends (q.done key) := by
  refine ⟨q.grows_done key, ?_⟩
  obtain ⟨_, same⟩ | ⟨_, last⟩ := q.waiting_done key
  · exact Nat.le_of_eq (congrArg List.length same.symm)
  · rw [last, List.length_append]
    exact Nat.le_add_right _ _

end WorkQueue

namespace Floor

/-- While the queue is open, a key waits for each worker that was woken. -/
def Provided (f : Floor ω) : Prop :=
  f.queue.closed = true ∨ f.signal.woken.length ≤ f.queue.waiting.length

variable {f : Floor ω} {queue : WorkQueue}

theorem lineup_changed (f : Floor ω) (queue : WorkQueue) :
    (f.changed queue).signal.lineup = f.signal.lineup := by
  rw [changed]
  dsimp only
  split
  · exact f.signal.lineup_notifyOne
  · rfl

theorem sleeping_changed (none : f.signal.sleeping = []) :
    (f.changed queue).signal.sleeping = [] := by
  rw [changed]
  dsimp only
  split
  · rw [Signal.notifyOne, none]
  · exact none

theorem provided_changed (provided : f.Provided) (more : f.queue.Extends queue) :
    (f.changed queue).Provided := by
  refine provided.imp more.1.1.trans fun enough => ?_
  rw [changed]
  dsimp only
  split
  case isTrue grown =>
    have one := f.signal.length_woken_notifyOne
    omega
  case isFalse => exact Nat.le_trans enough more.2

end Floor

/-! ## One thing at a time -/

namespace Desk

variable {d d' : Desk ω} {arrivals : List ω} {w : ω}

/-- Workers leave in the order in which they arrived, with a key while the queue is open. -/
structure Serves (d : Desk ω) (arrivals : List ω) : Prop where
  inTurn : d.left.toList.map Prod.fst ++ d.floor.signal.lineup = arrivals
  dismissed : d.floor.queue.closed = true → d.floor.signal.sleeping = []
  awake : d.floor.Awake 0
  provided : d.floor.Provided
  keyed : d.floor.queue.closed = false → ∀ entry ∈ d.left.toList, entry.2.isSome = true

theorem serves_start : ({} : Desk ω).Serves [] where
  inTurn := rfl
  dismissed _ := rfl
  awake := .inr (.inl rfl)
  provided := .inr (Nat.le_refl _)
  keyed _ _ := nofun

theorem Serves.enough (serves : d.Serves arrivals) (opened : d.floor.queue.closed = false) :
    d.floor.signal.woken.length ≤ d.floor.queue.waiting.length :=
  serves.provided.resolve_left (by rw [opened]; exact Bool.false_ne_true)

theorem Serves.changed {queue : WorkQueue} (serves : d.Serves arrivals)
    (more : d.floor.queue.Extends queue) :
    { d with floor := d.floor.changed queue : Desk ω }.Serves arrivals where
  inTurn := by
    rw [Floor.lineup_changed]
    exact serves.inTurn
  dismissed closed := Floor.sleeping_changed (serves.dismissed (more.1.1.symm.trans closed))
  awake := Floor.awake_changed serves.awake more.1
  provided := Floor.provided_changed serves.provided more
  keyed opened := serves.keyed (more.1.1.symm.trans opened)

theorem Serves.runOut (serves : d.Serves arrivals) (timer : QueueTimer) :
    { d with floor := d.floor.runOut timer : Desk ω }.Serves arrivals := by
  have fewer (timers : List QueueTimer) :
      { d with floor := { d.floor with queue := { d.floor.queue with timers } } : Desk ω }.Serves
        arrivals :=
    ⟨serves.inTurn, serves.dismissed, serves.awake, serves.provided, serves.keyed⟩
  exact (fewer _).changed (WorkQueue.extends_expire _ timer)

/-- How a worker that asks is served. -/
theorem serve_eq (d : Desk ω) (w : ω) :
    (d.floor.queue.closed = true ∧ d.serve w = { d with left := d.left.push (w, none) }) ∨
    (d.floor.queue.closed = false ∧ ∃ key rest, d.floor.queue.waiting = key :: rest ∧
      d.serve w =
        { d with
          floor := { d.floor with queue := d.floor.queue.handedOut key rest }
          left := d.left.push (w, some key) }) ∨
    d.floor.queue.closed = false ∧ d.floor.queue.waiting = [] ∧
      d.serve w = { d with floor := { d.floor with signal := d.floor.signal.sleep w } } := by
  rw [serve]
  obtain ⟨closed, same⟩ | ⟨opened, key, rest, first, same⟩ | ⟨opened, none, same⟩ :=
    d.floor.get_cases w
  · rw [same]
    exact .inl ⟨closed, rfl⟩
  · rw [same]
    exact .inr (.inl ⟨opened, key, rest, first, rfl⟩)
  · rw [same]
    exact .inr (.inr ⟨opened, none, rfl⟩)

theorem keyed_push {left : Array (ω × Option Key)} {key : Key}
    (keyed : ∀ entry ∈ left.toList, entry.2.isSome = true) :
    ∀ entry ∈ (left.push (w, some key)).toList, entry.2.isSome = true := by
  intro entry member
  rw [Array.toList_push] at member
  obtain old | new := List.mem_append.mp member
  · exact keyed entry old
  · rw [List.mem_singleton.mp new]
    rfl

/-- The worker that was woken first asks again, and leaves. -/
theorem Serves.rouse [DecidableEq ω] {rest : List ω} (serves : d.Serves arrivals)
    (woken : d.floor.signal.woken = w :: rest) :
    ({ d with floor := d.floor.rouse w : Desk ω }.serve w).Serves arrivals := by
  have signal : (d.floor.rouse w).signal = { d.floor.signal with woken := rest } := by
    rw [Floor.rouse, woken, List.erase_cons_head]
  have line : d.floor.signal.lineup = w :: (d.floor.rouse w).signal.lineup := by
    rw [signal, Signal.lineup, Signal.lineup, woken]
    rfl
  have gone (taken : Option Key) :
      (d.left.push (w, taken)).toList.map Prod.fst ++ (d.floor.rouse w).signal.lineup =
        arrivals := by
    rw [Array.toList_push, List.map_append, List.append_assoc, ← serves.inTurn, line]
    rfl
  have awake : (d.floor.rouse w).Awake 1 := Floor.awake_rouse serves.awake w
  obtain ⟨closed, same⟩ | ⟨opened, key, keys, first, same⟩ | ⟨opened, none, -⟩ :=
    { d with floor := d.floor.rouse w : Desk ω }.serve_eq w
  · rw [same]
    exact
      { inTurn := gone none
        dismissed := fun _ => signal ▸ serves.dismissed closed
        awake := .inl closed
        provided := .inl closed
        keyed := fun opened => (Bool.false_ne_true (opened.symm.trans closed)).elim }
  · have enough := serves.enough opened
    rw [woken, show d.floor.queue.waiting = key :: keys from first] at enough
    have asked := Floor.awake_get awake w
    rw [← ({ d with floor := d.floor.rouse w : Desk ω }.serve_cases w).1, same] at asked
    rw [same]
    exact
      { inTurn := gone (some key)
        dismissed := fun closed => (Bool.false_ne_true (opened.symm.trans closed)).elim
        awake := asked
        provided := .inr (by rw [signal]; exact Nat.le_of_succ_le_succ enough)
        keyed := fun _ => keyed_push (serves.keyed opened) }
  · -- A key waits for a worker that was woken.
    have enough := serves.enough opened
    rw [woken, show d.floor.queue.waiting = [] from none] at enough
    exact absurd enough (Nat.not_succ_le_zero _)

/-- Where nobody was woken and a key waits, nobody sleeps. -/
theorem Serves.nobody_sleeps {key : Key} {rest : List Key} (serves : d.Serves arrivals)
    (unwoken : d.floor.signal.woken = []) (opened : d.floor.queue.closed = false)
    (first : d.floor.queue.waiting = key :: rest) : d.floor.signal.sleeping = [] := by
  obtain closed | none | few := serves.awake
  · exact (Bool.false_ne_true (opened.symm.trans closed)).elim
  · exact none
  · rw [unwoken, first] at few
    exact absurd few (Nat.not_succ_le_zero _)

/-- A worker arrives when nobody else is about to ask. -/
theorem Serves.wait (serves : d.Serves arrivals) (unwoken : d.floor.signal.woken = []) (w : ω) :
    (d.serve w).Serves (arrivals ++ [w]) := by
  have gone (none : d.floor.signal.sleeping = []) (taken : Option Key) :
      (d.left.push (w, taken)).toList.map Prod.fst ++ d.floor.signal.lineup = arrivals ++ [w] := by
    have line : d.floor.signal.lineup = [] := by
      rw [Signal.lineup, unwoken, none]
      rfl
    rw [← serves.inTurn, line, Array.toList_push, List.map_append, List.append_nil, List.append_nil]
    rfl
  obtain ⟨closed, same⟩ | ⟨opened, key, rest, first, same⟩ | ⟨opened, none, same⟩ := d.serve_eq w
  · rw [same]
    exact
      { inTurn := gone (serves.dismissed closed) none
        dismissed := serves.dismissed
        awake := .inl closed
        provided := .inl closed
        keyed := fun opened => (Bool.false_ne_true (opened.symm.trans closed)).elim }
  · have none := serves.nobody_sleeps unwoken opened first
    rw [same]
    exact
      { inTurn := gone none (some key)
        dismissed := fun _ => none
        awake := .inr (.inl none)
        provided := .inr (by rw [unwoken]; exact Nat.zero_le _)
        keyed := fun _ => keyed_push (serves.keyed opened) }
  · rw [same]
    exact
      { inTurn := by
          rw [Signal.lineup_sleep, ← List.append_assoc, serves.inTurn]
        dismissed := fun closed => (Bool.false_ne_true (opened.symm.trans closed)).elim
        awake := .inr (.inr (by rw [none]; exact Nat.zero_le _))
        provided := .inr (by rw [none]; exact Nat.le_of_eq (congrArg List.length unwoken))
        keyed := serves.keyed }

/-- Somebody takes a key when no worker is about to ask. -/
theorem Serves.look (serves : d.Serves arrivals) (unwoken : d.floor.signal.woken = []) :
    { d with floor := d.floor.look.2 : Desk ω }.Serves arrivals := by
  rw [Floor.look]
  by_cases opened : d.floor.queue.closed = true
  · rw [if_pos opened]
    exact serves
  rw [if_neg opened]
  split
  · next key queue taken =>
      obtain ⟨rest, first, rfl⟩ := WorkQueue.take?_eq_some.mp taken
      have none := serves.nobody_sleeps unwoken (Bool.eq_false_iff.mpr opened) first
      exact
        { inTurn := serves.inTurn
          dismissed := serves.dismissed
          awake := .inr (.inl none)
          provided := .inr (by rw [unwoken]; exact Nat.zero_le _)
          keyed := serves.keyed }
  · exact ⟨serves.inTurn, serves.dismissed, serves.awake, serves.provided, serves.keyed⟩

theorem Serves.close (serves : d.Serves arrivals) :
    { d with floor := d.floor.close : Desk ω }.Serves arrivals where
  inTurn := by
    rw [Floor.close, Signal.lineup_notifyAll]
    exact serves.inTurn
  dismissed _ := rfl
  awake := .inl rfl
  provided := .inl rfl
  keyed := nofun

variable [DecidableEq ω]

/-- What happens by itself keeps the order. -/
theorem keeps_serves (arrivals : List ω) :
    timeline.Keeps fun d : Desk ω => d.Serves arrivals where
  step steps serves := by
    obtain ⟨timer, _, _, rfl⟩ | ⟨w, rest, woken, rfl⟩ := step?_cases steps
    · exact serves.runOut timer
    · exact serves.rouse woken
  setClock _ _ serves :=
    ⟨serves.inTurn, serves.dismissed, serves.awake, serves.provided, serves.keyed⟩

/-! ## When nothing is left to do -/

omit [DecidableEq ω] in
theorem expire?_eq_none_iff {f : Floor ω} {now : Nat} :
    f.expire? now = none ↔ ∀ timer ∈ f.queue.timers, now < timer.due := by
  refine ⟨fun rest timer running => lt_due_of_expire? rest running, fun ahead => ?_⟩
  have none : f.queue.timers.find? (fun timer => timer.due ≤ now) = none := by
    rw [List.find?_eq_none]
    intro timer running
    simpa using ahead timer running
  rw [Floor.expire?, WorkQueue.popDue?, none]
  rfl

omit [DecidableEq ω] in
theorem rest_iff :
    d.step? = none ↔
      (∀ timer ∈ d.floor.queue.timers, d.clock < timer.due) ∧ d.floor.signal.woken = [] := by
  rw [← expire?_eq_none_iff, ← Signal.popWoken?_eq_none_iff, step?]
  cases d.floor.expire? d.clock <;> simp

theorem step?_visit (target now : Nat) {d : Desk ω} (rest : d.step? = none)
    (shows : d.clock = now) :
    (timeline.setClock (timeline.visit target now d) target).step? = none := by
  induction now, d using Timeline.visit.induct timeline target with
  | case1 now d idle =>
      rw [Timeline.visit, idle]
      have none : (timeline.setClock d target).floor.queue.timers = [] := timers_of_idle idle
      exact rest_iff.mpr ⟨by rw [none]; exact List.forall_mem_nil _, (rest_iff.mp rest).2⟩
  | case2 now d due next ahead ih =>
      rw [Timeline.visit, next]
      simp only [dif_pos ahead]
      exact ih (step?_settle _) (clock_settle _)
  | case3 now d due next behind =>
      rw [Timeline.visit, next]
      simp only [dif_neg behind]
      have beyond := lt_due_of_behind rest next (shows ▸ behind)
      exact rest_iff.mpr ⟨beyond, (rest_iff.mp rest).2⟩

theorem step?_advance (d : Desk ω) (ms : Nat) : (d.advance ms).step? = none :=
  step?_visit _ _ (step?_settle d) (clock_settle d)

/-! ## Workers leave for good -/

omit [DecidableEq ω] in
theorem left_serve (d : Desk ω) (w : ω) : d.left.toList <+: (d.serve w).left.toList := by
  obtain ⟨_, same⟩ | ⟨_, _, _, _, same⟩ | ⟨_, _, same⟩ := d.serve_eq w
  · rw [same, Array.toList_push]
    exact List.prefix_append _ _
  · rw [same, Array.toList_push]
    exact List.prefix_append _ _
  · exact ⟨[], by rw [same, List.append_nil]⟩

/-- Nobody who left comes back. -/
theorem keeps_left (before : List (ω × Option Key)) :
    timeline.Keeps fun d : Desk ω => before <+: d.left.toList where
  step := by
    rintro d d' steps was
    obtain ⟨_, _, _, rfl⟩ | ⟨w, _, _, rfl⟩ := step?_cases steps
    · exact was
    · exact was.trans (left_serve { d with floor := d.floor.rouse w } w)
  setClock _ _ was := was

omit [DecidableEq ω] in
/-- No timer wakes a worker of a queue that is closed. -/
theorem signal_runOut {f : Floor ω} (closed : f.queue.closed = true) (timer : QueueTimer) :
    (f.runOut timer).signal = f.signal := by
  have same : ({ f.queue with timers := f.queue.timers.erase timer }.expire timer).waiting =
      f.queue.waiting :=
    WorkQueue.waiting_expire (q := { f.queue with timers := f.queue.timers.erase timer }) closed
      timer
  exact if_neg (Nat.not_lt_of_le (Nat.le_of_eq (congrArg List.length same)))

/-- The queue is closed, and `leaving` are those who left, and then those who are about to leave
without a key. -/
def Dismisses (d : Desk ω) (leaving : List (ω × Option Key)) : Prop :=
  d.floor.queue.closed = true ∧
    d.left.toList ++ d.floor.signal.woken.map (fun w => (w, none)) = leaving

/-- From a closed queue workers leave without a key. -/
theorem keeps_dismisses (leaving : List (ω × Option Key)) :
    timeline.Keeps fun d : Desk ω => d.Dismisses leaving where
  step := by
    rintro d d' steps ⟨closed, line⟩
    obtain ⟨timer, _, _, rfl⟩ | ⟨w, rest, woken, rfl⟩ := step?_cases steps
    · refine ⟨(WorkQueue.extends_expire _ timer).1.1.trans closed, ?_⟩
      rw [signal_runOut closed]
      exact line
    · obtain ⟨_, same⟩ | ⟨opened, _⟩ | ⟨opened, _⟩ :=
        { d with floor := d.floor.rouse w : Desk ω }.serve_eq w
      · rw [same]
        refine ⟨closed, ?_⟩
        rw [← line, woken, Array.toList_push, Floor.rouse, woken, List.erase_cons_head,
          List.append_assoc]
        rfl
      · exact (Bool.false_ne_true (opened.symm.trans closed)).elim
      · exact (Bool.false_ne_true (opened.symm.trans closed)).elim
  setClock _ _ dismisses := dismisses

end Desk

/-! ## Whatever is asked of a desk -/

inductive DeskRequest (ω : Type) where
  | add (key : Key)
  | addAfter (delay : Nat) (key : Key)
  | done (key : Key)
  /-- A worker arrives. -/
  | wait (w : ω)
  /-- Somebody takes a key if one is there. -/
  | look
  | advance (ms : Nat)
  | close

/-- The worker that arrives, if one does. -/
def DeskRequest.arrives : DeskRequest ω → List ω
  | .wait w => [w]
  | _ => []

namespace Desk

def grant (d : Desk ω) : DeskRequest ω → Desk ω
  | .add key => d.add key
  | .addAfter delay key => d.addAfter delay key
  | .done key => d.done key
  | .wait w => d.wait w
  | .look => d.look.2
  | .advance ms => d.advance ms
  | .close => d.close

/-- The desk at which these requests were made, the first one first. -/
def granted (requests : List (DeskRequest ω)) : Desk ω := requests.foldl grant {}

/-- Nothing is left to do, and those who came have left or sleep, in the order in which they came.
They left with a key while the queue is open, and they sleep beside an empty queue only. -/
structure Rests (d : Desk ω) (arrivals : List ω) : Prop where
  still : d.step? = none
  unwoken : d.floor.signal.woken = []
  inTurn : d.left.toList.map Prod.fst ++ d.floor.signal.sleeping = arrivals
  keyed : d.floor.queue.closed = false → ∀ entry ∈ d.left.toList, entry.2.isSome = true
  empty : d.floor.signal.sleeping ≠ [] →
    d.floor.queue.waiting = [] ∧ d.floor.queue.closed = false

variable {d : Desk ω} {arrivals : List ω} {request : DeskRequest ω}

theorem Serves.rests (serves : d.Serves arrivals) (still : d.step? = none) :
    d.Rests arrivals := by
  have unwoken : d.floor.signal.woken = [] := (rest_iff.mp still).2
  refine ⟨still, unwoken, ?_, serves.keyed, fun some => ?_⟩
  · rw [← serves.inTurn, Signal.lineup, unwoken, List.nil_append]
  · have opened : d.floor.queue.closed = false :=
      Bool.eq_false_iff.mpr fun closed => some (serves.dismissed closed)
    refine ⟨?_, opened⟩
    cases waits : d.floor.queue.waiting with
    | nil => rfl
    | cons key rest => exact absurd (serves.nobody_sleeps unwoken opened waits) some

variable [DecidableEq ω]

/-- After each request everything happens that can. -/
theorem step?_grant (d : Desk ω) (request : DeskRequest ω) : (d.grant request).step? = none := by
  cases request with
  | advance ms => exact d.step?_advance ms
  | _ => exact step?_settle _

theorem Serves.grant (serves : d.Serves arrivals) (still : d.step? = none)
    (request : DeskRequest ω) : (d.grant request).Serves (arrivals ++ request.arrives) := by
  have unwoken : d.floor.signal.woken = [] := (rest_iff.mp still).2
  have here : d.Serves (arrivals ++ []) := by
    rw [List.append_nil]
    exact serves
  have keeps := keeps_serves (arrivals ++ request.arrives)
  cases request with
  | add key => exact keeps.settle (here.changed (WorkQueue.extends_add _ key))
  | addAfter delay key =>
      exact keeps.settle (here.changed (WorkQueue.extends_addAfter _ d.clock delay key))
  | done key => exact keeps.settle (here.changed (WorkQueue.extends_done _ key))
  | wait w => exact keeps.settle (serves.wait unwoken w)
  | look => exact keeps.settle (here.look unwoken)
  | advance ms => exact keeps.advance ms here
  | close => exact keeps.settle here.close

theorem left_grant (d : Desk ω) (request : DeskRequest ω) :
    d.left.toList <+: (d.grant request).left.toList := by
  have keeps := keeps_left d.left.toList
  cases request with
  | wait w => exact keeps.settle (left_serve d w)
  | advance ms => exact keeps.advance ms (List.prefix_refl _)
  | _ => exact keeps.settle (List.prefix_refl _)

theorem serves_foldl (requests : List (DeskRequest ω)) (serves : d.Serves arrivals)
    (still : d.step? = none) :
    (requests.foldl grant d).Serves (arrivals ++ requests.flatMap DeskRequest.arrives) ∧
      (requests.foldl grant d).step? = none := by
  induction requests generalizing d arrivals with
  | nil =>
      rw [List.flatMap_nil, List.append_nil]
      exact ⟨serves, still⟩
  | cons request later ih =>
      rw [List.flatMap_cons, ← List.append_assoc]
      exact ih (serves.grant still request) (step?_grant d request)

/-- Those who leave because of a request are the first of those who slept, and then the one that
arrived. -/
theorem Serves.exists_gone (serves : d.Serves arrivals) (still : d.step? = none)
    (request : DeskRequest ω) :
    ∃ gone, (d.grant request).left.toList = d.left.toList ++ gone ∧
      gone.map Prod.fst ++ (d.grant request).floor.signal.sleeping =
        d.floor.signal.sleeping ++ request.arrives := by
  obtain ⟨gone, same⟩ := left_grant d request
  refine ⟨gone, same.symm, ?_⟩
  have before := (serves.rests still).inTurn
  have after := ((serves.grant still request).rests (step?_grant d request)).inTurn
  rw [← same, ← before, List.map_append, List.append_assoc, List.append_assoc] at after
  exact List.append_cancel_left after

/-- To close the queue makes everyone who slept leave, without a key. -/
theorem close_dismisses (still : d.step? = none) :
    d.close.floor.queue.closed = true ∧
      d.close.left.toList = d.left.toList ++ d.floor.signal.sleeping.map fun w => (w, none) := by
  have unwoken : d.floor.signal.woken = [] := (rest_iff.mp still).2
  have woken : { d with floor := d.floor.close : Desk ω }.Dismisses
      (d.left.toList ++ d.floor.signal.sleeping.map fun w => (w, none)) := by
    refine ⟨rfl, ?_⟩
    change d.left.toList ++ (d.floor.signal.woken ++ d.floor.signal.sleeping).map _ = _
    rw [unwoken, List.nil_append]
  obtain ⟨closed, line⟩ : d.close.Dismisses _ := (keeps_dismisses _).settle woken
  have gone : d.close.floor.signal.woken = [] := (rest_iff.mp (step?_settle _)).2
  rw [gone, List.map_nil, List.append_nil] at line
  exact ⟨closed, line⟩

/-- After any requests, once everything has happened that can at that instant, workers sleep only if
no key waits and the queue is open.  They are served in the order in which they came, with a key
each while the queue is open: whoever leaves because of a request is the first of those who slept.
When the queue is closed, everyone who sleeps leaves without a key. -/
theorem nobody_sleeps_beside_keys (requests : List (DeskRequest ω)) :
    (granted requests).Rests (requests.flatMap DeskRequest.arrives) ∧
    (∀ request, ∃ gone,
      (granted (requests ++ [request])).left.toList = (granted requests).left.toList ++ gone ∧
      gone.map Prod.fst ++ (granted (requests ++ [request])).floor.signal.sleeping =
        (granted requests).floor.signal.sleeping ++ request.arrives) ∧
    (granted (requests ++ [.close])).left.toList =
      (granted requests).left.toList ++
        ((granted requests).floor.signal.sleeping.map fun w => (w, none)) ∧
    (granted (requests ++ [.close])).floor.signal.sleeping = [] := by
  obtain ⟨serves, still⟩ := serves_foldl requests (serves_start (ω := ω)) rfl
  have next (request : DeskRequest ω) :
      granted (requests ++ [request]) = (granted requests).grant request := by
    rw [granted, List.foldl_append]
    rfl
  obtain ⟨closed, dismissed⟩ := close_dismisses still
  refine ⟨serves.rests still, fun request => ?_, ?_, ?_⟩
  · rw [next]
    exact serves.exists_gone still request
  · rw [next]
    exact dismissed
  · rw [next]
    exact (serves.grant still .close).dismissed closed

/-- A permit that outlived its key wakes nobody, and the next key goes to the first who sleeps. -/
example : (granted [.add sampleKey, .look, .done sampleKey, .wait 1, .wait 2, .add sampleKey]).left =
    #[(1, some sampleKey)] := by decide +kernel

end Desk

end Steward
