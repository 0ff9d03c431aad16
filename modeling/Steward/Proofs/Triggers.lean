import Steward.Proofs.Crew

/-!
# No trigger is lost

To add a key is to ask for it to be handed out once more.  A mark is kept from an add to the next
hand-out, and a marked key waits, or is held and waits as soon as it is given back; waiting keys
move up to the front.  No worker sleeps on while keys wait, for as many workers were woken as keys
began to wait.  So when the workers keep asking and give back what they hold, each key is handed out
after each add, once for all adds since the last time.
-/

namespace Steward

variable {ω : Type}

/-! ## One step -/

namespace WorkQueue

/-- The keys that wait in `q'` and did not wait in `q`. -/
def begun (q q' : WorkQueue) : List Key := q'.waiting.filter fun key => !q.waiting.contains key

variable {q q' : WorkQueue} {key : Key}

theorem begun_of_subset (old : ∀ key ∈ q'.waiting, key ∈ q.waiting) : q.begun q' = [] := by
  rw [begun, List.filter_eq_nil_iff]
  intro key waits
  simpa using old key waits

theorem waiting_eq_of_same (same : q'.waiting = q.waiting) :
    q'.waiting = q.waiting ++ q.begun q' := by
  have none : q.begun q' = [] := begun_of_subset fun key waits => same ▸ waits
  rw [none, List.append_nil, same]

theorem waiting_eq_of_concat (last : q'.waiting = q.waiting ++ [key]) (new : key ∉ q.waiting) :
    q'.waiting = q.waiting ++ q.begun q' := by
  have none : q.waiting.filter (fun key => !q.waiting.contains key) = [] := by
    rw [List.filter_eq_nil_iff]
    intro key waits
    simpa using waits
  have one : q.begun q' = [key] := by
    rw [begun, last, List.filter_append, none, List.nil_append]
    simp [new]
  rw [one, last]

theorem waiting_insert (q : WorkQueue) (key : Key) :
    (q.insert key).waiting = q.waiting ∨
      key ∉ q.dirty ∧ (q.insert key).waiting = q.waiting ++ [key] := by
  by_cases dirty : key ∈ q.dirty
  · rw [insert_eq_self dirty]
    exact .inl rfl
  · rw [insert_eq dirty]
    by_cases busy : key ∈ q.processing
    · exact .inl (if_pos busy)
    · exact .inr ⟨dirty, if_neg busy⟩

theorem waiting_add (q : WorkQueue) (key : Key) :
    (q.add key).waiting = q.waiting ∨
      key ∉ q.dirty ∧ (q.add key).waiting = q.waiting ++ [key] := by
  rw [add]
  split
  · exact .inl rfl
  · exact q.waiting_insert key

theorem waiting_done (q : WorkQueue) (key : Key) :
    key ∉ q.dirty ∧ (q.done key).waiting = q.waiting ∨
      key ∈ q.dirty ∧ (q.done key).waiting = q.waiting ++ [key] := by
  rw [done]
  by_cases dirty : key ∈ q.dirty
  · exact .inr ⟨dirty, if_pos (by simpa using dirty)⟩
  · exact .inl ⟨dirty, if_neg (by simpa using dirty)⟩

end WorkQueue

namespace Crew

section Turns

variable {held : List (ω × Key)} {q q' : WorkQueue} {e : QueueEvent ω} {key : Key}

/-- Nothing but an add marks a key. -/
theorem Turn.adds_of_dirty (turn : Turn held q e q') (dirty : key ∈ q'.dirty) :
    e.adds? = some key ∨ key ∈ q.dirty ∧ e.hands? ≠ some key := by
  cases turn with
  | silent silent => exact .inr ⟨dirty, by simp [silent.hands?_eq_none]⟩
  | added adds =>
      obtain rfl | old := WorkQueue.mem_dirty_insert.mp dirty
      · exact .inl adds
      · exact .inr ⟨old, by simp [QueueEvent.hands?_of_adds adds]⟩
  | refused _ adds => exact .inr ⟨dirty, by simp [QueueEvent.hands?_of_adds adds]⟩
  | handed =>
      obtain ⟨other, old⟩ := WorkQueue.mem_erase_iff.mp dirty
      exact .inr ⟨old, by simpa [QueueEvent.hands?] using other.symm⟩
  | returned | closed => exact .inr ⟨dirty, nofun⟩

/-- A mark goes when its key is handed out. -/
theorem Turn.dirty_of_dirty (turn : Turn held q e q') (dirty : key ∈ q.dirty)
    (kept : e.hands? ≠ some key) : key ∈ q'.dirty := by
  cases turn with
  | added => exact WorkQueue.mem_dirty_insert.mpr (.inr dirty)
  | handed =>
      refine WorkQueue.mem_erase_iff.mpr ⟨?_, dirty⟩
      rintro rfl
      exact kept rfl
  | silent | refused | returned | closed => exact dirty

/-- A key is marked by an add to an open queue, until it is handed out. -/
theorem Turn.mem_dirty (turn : Turn held q e q') (opened : q.closed = false) :
    key ∈ q'.dirty ↔ e.adds? = some key ∨ key ∈ q.dirty ∧ e.hands? ≠ some key := by
  refine ⟨turn.adds_of_dirty, ?_⟩
  rintro (adds | ⟨dirty, kept⟩)
  · cases turn with
    | silent silent => cases silent.adds?_eq_none.symm.trans adds
    | added own =>
        cases own.symm.trans adds
        exact WorkQueue.mem_dirty_insert.mpr (.inl rfl)
    | refused closed => cases opened.symm.trans closed
    | handed | returned | closed => cases adds
  · exact turn.dirty_of_dirty dirty kept

/-- Keys are taken from the front, and those that begin to wait come last. -/
theorem Turn.waiting_eq (turn : Turn held q e q') (sound : q.Sound (held.map Prod.snd)) :
    e.hands?.toList ++ q'.waiting = q.waiting ++ q.begun q' := by
  cases turn with
  | silent silent =>
      rw [silent.hands?_eq_none]
      exact WorkQueue.waiting_eq_of_same rfl
  | @added _ k scheduled timers adds =>
      rw [QueueEvent.hands?_of_adds adds]
      obtain same | ⟨clean, last⟩ := WorkQueue.waiting_insert { q with scheduled, timers } k
      · exact WorkQueue.waiting_eq_of_same same
      · exact WorkQueue.waiting_eq_of_concat last fun waits => clean (sound.marked k waits)
  | refused _ adds =>
      rw [QueueEvent.hands?_of_adds adds]
      exact WorkQueue.waiting_eq_of_same rfl
  | @handed w k rest first =>
      have old : ∀ key ∈ (q.handedOut k rest).waiting, key ∈ q.waiting := by
        intro key waits
        rw [first]
        exact List.mem_cons_of_mem _ waits
      rw [WorkQueue.begun_of_subset old, List.append_nil, first]
      rfl
  | @returned w k holds =>
      have busy : k ∈ q.processing := (sound.mem_held k).mpr (List.mem_map_of_mem holds)
      obtain ⟨_, same⟩ | ⟨_, last⟩ := q.waiting_done k
      · exact WorkQueue.waiting_eq_of_same same
      · exact WorkQueue.waiting_eq_of_concat last fun waits => sound.free k waits busy
  | closed => exact WorkQueue.waiting_eq_of_same rfl

end Turns

end Crew

/-! ## No worker sleeps beside waiting keys -/

namespace WorkQueue

/-- At most one more key waits. -/
def Grows (q q' : WorkQueue) : Prop :=
  q'.closed = q.closed ∧ q'.waiting.length ≤ q.waiting.length + 1

variable (q : WorkQueue)

theorem grows_insert (key : Key) : q.Grows (q.insert key) := by
  refine ⟨closed_insert q key, ?_⟩
  obtain same | ⟨_, last⟩ := q.waiting_insert key
  · rw [same]
    exact Nat.le_succ _
  · rw [last, List.length_append]
    exact Nat.le_refl _

theorem grows_add (key : Key) : q.Grows (q.add key) := by
  rw [add]
  split
  · exact ⟨rfl, Nat.le_succ _⟩
  · exact q.grows_insert key

theorem grows_schedule (deadline : Nat) (key : Key) : q.Grows (q.schedule deadline key) := by
  obtain ⟨_, _, same⟩ := q.schedule_eq deadline key
  rw [same]
  exact ⟨rfl, Nat.le_succ _⟩

theorem grows_addAfter (now delay : Nat) (key : Key) : q.Grows (q.addAfter now delay key) := by
  obtain ⟨_, same⟩ | ⟨_, _, _, same⟩ := q.addAfter_cases now delay key
  · rw [same]
    exact q.grows_add key
  · rw [same]
    exact ⟨rfl, Nat.le_succ _⟩

theorem grows_expire (timer : QueueTimer) : q.Grows (q.expire timer) := by
  rw [expire]
  split
  · exact grows_add { q with scheduled := q.scheduled.erase timer.key } timer.key
  · exact ⟨rfl, Nat.le_succ _⟩

theorem grows_done (key : Key) : q.Grows (q.done key) := by
  refine ⟨rfl, ?_⟩
  obtain ⟨_, same⟩ | ⟨_, last⟩ := q.waiting_done key
  · rw [same]
    exact Nat.le_succ _
  · rw [last, List.length_append]
    exact Nat.le_refl _

end WorkQueue

namespace Floor

/-- Unless nobody sleeps, the keys that wait outnumber the woken workers by no more than `n`. -/
def Awake (f : Floor ω) (n : Nat) : Prop :=
  f.queue.closed = true ∨ f.signal.sleeping = [] ∨
    f.queue.waiting.length ≤ f.signal.woken.length + n

variable {f : Floor ω} {n : Nat}

theorem awake_changed {queue : WorkQueue} (awake : f.Awake n) (grows : f.queue.Grows queue) :
    (f.changed queue).Awake n := by
  rw [changed, Awake]
  rw [grows.1]
  obtain closed | sleeping | enough := awake
  · exact .inl closed
  · refine .inr (.inl ?_)
    split <;> simp [Signal.notifyOne, sleeping]
  · refine .inr ?_
    have short := grows.2
    split
    case isTrue =>
      rw [Signal.notifyOne]
      cases sleeping : f.signal.sleeping with
      | nil => exact .inl rfl
      | cons w rest =>
          refine .inr ?_
          simp only [List.length_append, List.length_singleton]
          omega
    case isFalse same => exact .inr (by simp only; omega)

/-- A worker that is served takes a key or finds none. -/
theorem awake_serve (awake : f.Awake (n + 1)) (w : ω) : (f.serve w).2.Awake n := by
  obtain ⟨key, rest, first, same⟩ | ⟨none, same⟩ := f.serve_cases w
  · rw [same]
    refine awake.imp_right (Or.imp_right fun enough => ?_)
    rw [first, List.length_cons] at enough
    exact Nat.le_of_succ_le_succ enough
  · rw [same]
    refine .inr (.inr ?_)
    simp [none]

theorem awake_get (awake : f.Awake (n + 1)) (w : ω) : (f.get w).2.Awake n := by
  rw [get]
  by_cases closed : f.queue.closed = true
  · rw [if_pos closed]
    exact .inl closed
  · rw [if_neg closed]
    exact awake_serve awake w

theorem awake_rouse [DecidableEq ω] (awake : f.Awake n) (w : ω) : (f.rouse w).Awake (n + 1) := by
  refine awake.imp_right (Or.imp_right fun enough => ?_)
  have erased : (f.signal.woken.erase w).length + 1 ≥ f.signal.woken.length := by
    rw [List.length_erase]
    split <;> omega
  simp only [rouse]
  omega

end Floor

namespace Crew

variable [DecidableEq ω] {s t : Crew ω} {e : QueueEvent ω}

/-- Workers that were let in count like those that were woken. -/
def Awake (s : Crew ω) : Prop := s.floor.Awake s.inside.length

theorem Step.awake (step : Step s e t) (awake : s.Awake) : t.Awake := by
  cases step with
  | rest | unschedule => exact awake
  | add key => exact Floor.awake_changed awake (WorkQueue.grows_add _ key)
  | insert key => exact Floor.awake_changed awake (WorkQueue.grows_insert _ key)
  | addAfter now delay key =>
      exact Floor.awake_changed awake (WorkQueue.grows_addAfter _ now delay key)
  | @schedule delay now key =>
      exact Floor.awake_changed awake (WorkQueue.grows_schedule _ (now + delay) key)
  | @fire timer | @lapse timer =>
      exact Floor.awake_changed
        (f := { s.floor with queue := { s.floor.queue with timers := _ } }) awake
        (WorkQueue.grows_expire _ timer)
  | enter => exact Floor.awake_rouse awake _
  | dismiss closed => exact .inl closed
  | @serve w admitted =>
      have one : (s.inside.erase w).length + 1 = s.inside.length := by
        rw [List.length_erase_of_mem admitted]
        exact Nat.sub_add_cancel (List.length_pos_of_mem admitted)
      rw [Awake, ← one] at awake
      exact Floor.awake_serve awake _
  | giveBack => exact Floor.awake_changed awake (WorkQueue.grows_done _ _)
  | close => exact .inl rfl

/-- A worker that is answered while the queue is open and keys wait gets one. -/
theorem Step.hands_of_asked {w : ω} {answer : HandOut} (step : Step s (.asked w answer) t)
    (opened : s.queue.closed = false) (waits : s.queue.waiting ≠ []) :
    ∃ key, answer = .key key := by
  cases step with
  | dismiss closed => cases opened.symm.trans closed
  | serve =>
      obtain ⟨key, _, _, same⟩ | ⟨none, _⟩ := s.floor.serve_cases w
      · exact ⟨key, by rw [same]⟩
      · exact absurd none waits

/-! ## Runs -/

/-- What happens at some time from `n` on happens for a first time. -/
theorem exists_first {p : Nat → Prop} {n : Nat} (happens : ∃ m, n ≤ m ∧ p m) :
    ∃ m, n ≤ m ∧ p m ∧ ∀ i, n ≤ i → i < m → ¬ p i := by
  obtain ⟨m, from_n, now⟩ := happens
  induction m using Nat.strongRecOn with
  | ind m ih =>
      by_cases earlier : ∃ i, n ≤ i ∧ i < m ∧ p i
      · obtain ⟨i, after, before, was⟩ := earlier
        exact ih i before after was
      · exact ⟨m, from_n, now, fun i after before was => earlier ⟨i, after, before, was⟩⟩

namespace Run

variable (run : Run ω) {key : Key} {n : Nat}

def Adds (key : Key) (n : Nat) : Prop := (run.event n).adds? = some key

def Hands (key : Key) (n : Nat) : Prop := (run.event n).hands? = some key

/-- The keys that began to wait before `n`, in the order in which they did. -/
def arrivals : Nat → List Key
  | 0 => []
  | n + 1 => arrivals n ++ (run.state n).queue.begun (run.state (n + 1)).queue

/-- The keys that were handed out before `n`, in the order in which they were. -/
def handOuts : Nat → List Key
  | 0 => []
  | n + 1 => handOuts n ++ (run.event n).hands?.toList

/-- Keys are handed out in the order in which they began to wait. -/
theorem arrivals_eq (n : Nat) :
    run.arrivals n = run.handOuts n ++ (run.state n).queue.waiting := by
  induction n with
  | zero =>
      rw [run.start]
      rfl
  | succ n ih =>
      calc
        run.arrivals (n + 1) =
            (run.handOuts n ++ (run.state n).queue.waiting) ++
              (run.state n).queue.begun (run.state (n + 1)).queue := by
          rw [arrivals, ih]
        _ = run.handOuts n ++
            ((run.event n).hands?.toList ++ (run.state (n + 1)).queue.waiting) := by
          rw [List.append_assoc, ← (run.step n).turn.waiting_eq (run.sound n)]
        _ = run.handOuts (n + 1) ++ (run.state (n + 1)).queue.waiting := by
          rw [handOuts, List.append_assoc]

theorem opened_of_le {i : Nat} (le : i ≤ n) (opened : (run.state n).queue.closed = false) :
    (run.state i).queue.closed = false := by
  refine Bool.eq_false_iff.mpr fun closed => ?_
  rw [run.closed_of_le le closed] at opened
  cases opened

/-- A key that is marked was added since it was handed out last. -/
theorem added_since_of_dirty (dirty : key ∈ (run.state n).queue.dirty) :
    Since (run.Adds key) (run.Hands key) n := by
  induction n with
  | zero =>
      rw [run.start] at dirty
      exact absurd dirty Std.ExtTreeSet.not_mem_empty
  | succ n ih =>
      rw [since_succ]
      exact ((run.step n).turn.adds_of_dirty dirty).imp_right (And.imp_left ih)

/-- In an open queue a key is marked exactly if it was added since it was handed out last. -/
theorem mem_dirty_iff (opened : (run.state n).queue.closed = false) :
    key ∈ (run.state n).queue.dirty ↔ Since (run.Adds key) (run.Hands key) n := by
  refine ⟨run.added_since_of_dirty, fun since => ?_⟩
  induction n with
  | zero =>
      obtain ⟨i, before, _⟩ := since
      exact absurd before (Nat.not_lt_zero i)
  | succ n ih =>
      have before := run.opened_of_le (Nat.le_succ n) opened
      refine ((run.step n).turn.mem_dirty before).mpr ?_
      exact (since_succ.mp since).imp_right (And.imp_left (ih before))

theorem added_since_of_hands (hands : run.Hands key n) :
    Since (run.Adds key) (run.Hands key) n := by
  obtain ⟨rest, waits, _⟩ := (run.step n).turn.of_handed hands
  refine run.added_since_of_dirty ((run.sound n).marked key ?_)
  rw [waits]
  exact List.mem_cons_self

/-- Between two hand-outs of a key it is added. -/
theorem adds_between {m : Nat} (first : run.Hands key n) (second : run.Hands key m)
    (later : n < m) : ∃ i, n < i ∧ i < m ∧ run.Adds key i := by
  obtain ⟨i, before, adds, kept⟩ := run.added_since_of_hands second
  refine ⟨i, ?_, before, adds⟩
  obtain lower | same | higher := Nat.lt_trichotomy i n
  · exact absurd first (kept n lower later)
  · rw [same] at adds
    cases (QueueEvent.hands?_of_adds adds).symm.trans first
  · exact higher

/-! ## Fair runs -/

/-- There is somebody to work, the queue stays open, workers that do not sleep keep asking, whoever
was let in is answered, and every key that is held is given back in the end. -/
structure Fair (run : Run ω) : Prop where
  staffed : Nonempty ω
  opened : ∀ n, (run.state n).queue.closed = false
  asks : ∀ n w, w ∉ (run.state n).floor.signal.sleeping ∨ w ∈ (run.state n).floor.signal.woken →
    ∃ m, n ≤ m ∧ ∃ answer, run.event m = .asked w answer
  serves : ∀ n, ∀ w ∈ (run.state n).inside, ∃ m, n ≤ m ∧ ∃ answer, run.event m = .asked w answer
  returns : ∀ n w key, (w, key) ∈ (run.state n).held → ∃ m, n ≤ m ∧ run.event m = .returned w key

theorem awake (n : Nat) : (run.state n).Awake := by
  induction n with
  | zero =>
      rw [run.start]
      exact .inr (.inl rfl)
  | succ n ih => exact (run.step n).awake ih

/-- Without hand-outs the waiting keys stay in front. -/
theorem waiting_prefix {m : Nat} (le : n ≤ m)
    (quiet : ∀ i, n ≤ i → i < m → (run.event i).hands? = none) :
    ∃ more, (run.state m).queue.waiting = (run.state n).queue.waiting ++ more := by
  induction le with
  | refl => exact ⟨[], (List.append_nil _).symm⟩
  | @step m le ih =>
      obtain ⟨more, waits⟩ := ih fun i after before => quiet i after (Nat.lt_succ_of_lt before)
      have next := (run.step m).turn.waiting_eq (run.sound m)
      rw [quiet m le (Nat.lt_succ_self m), waits, List.append_assoc] at next
      exact ⟨_, next⟩

variable {run}

/-- Somebody is answered, for if everyone sleeps no key waits. -/
theorem Fair.exists_asked (fair : run.Fair) (waits : (run.state n).queue.waiting ≠ []) :
    ∃ m, n ≤ m ∧ ∃ w answer, run.event m = .asked w answer := by
  by_cases inside : (run.state n).inside = []
  case neg =>
    obtain ⟨w, admitted⟩ := List.exists_mem_of_ne_nil _ inside
    obtain ⟨m, le, answer, asked⟩ := fair.serves n w admitted
    exact ⟨m, le, w, answer, asked⟩
  obtain ⟨w, ready⟩ : ∃ w, w ∉ (run.state n).floor.signal.sleeping ∨
      w ∈ (run.state n).floor.signal.woken := by
    obtain closed | none | enough := run.awake n
    · cases (fair.opened n).symm.trans closed
    · exact ⟨Classical.choice fair.staffed, .inl (none ▸ List.not_mem_nil)⟩
    · have some : (run.state n).floor.signal.woken ≠ [] := by
        intro none
        rw [none, inside] at enough
        exact waits (List.length_eq_zero_iff.mp (Nat.le_zero.mp enough))
      obtain ⟨w, woken⟩ := List.exists_mem_of_ne_nil _ some
      exact ⟨w, .inr woken⟩
  obtain ⟨m, le, answer, asked⟩ := fair.asks n w ready
  exact ⟨m, le, w, answer, asked⟩

/-- While keys wait, the first of them is handed out next. -/
theorem Fair.hands_first (fair : run.Fair) {first : Key} {rest : List Key}
    (waits : (run.state n).queue.waiting = first :: rest) :
    ∃ m, n ≤ m ∧ run.Hands first m ∧
      ∃ more, (run.state (m + 1)).queue.waiting = rest ++ more := by
  have some : (run.state n).queue.waiting ≠ [] := by
    rw [waits]
    exact List.cons_ne_nil first rest
  have happens : ∃ m, n ≤ m ∧ (run.event m).hands? ≠ none := by
    obtain ⟨m, le, w, answer, asked⟩ := fair.exists_asked some
    by_cases before : ∃ i, n ≤ i ∧ i < m ∧ (run.event i).hands? ≠ none
    · obtain ⟨i, after, _, hands⟩ := before
      exact ⟨i, after, hands⟩
    have quiet : ∀ i, n ≤ i → i < m → (run.event i).hands? = none := by
      intro i after within
      exact not_not.mp fun hands => before ⟨i, after, within, hands⟩
    obtain ⟨more, waiting⟩ := run.waiting_prefix le quiet
    have still : (run.state m).queue.waiting ≠ [] := by
      rw [waiting]
      exact fun none => some (List.append_eq_nil_iff.mp none).1
    have step := run.step m
    rw [asked] at step
    obtain ⟨key, rfl⟩ := step.hands_of_asked (fair.opened m) still
    exact ⟨m, le, by simp [asked, QueueEvent.hands?]⟩
  obtain ⟨m, le, hands, quiet⟩ := exists_first happens
  obtain ⟨more, waiting⟩ :=
    run.waiting_prefix le fun i after within => not_not.mp (quiet i after within)
  obtain ⟨key, hands⟩ := Option.ne_none_iff_exists'.mp hands
  obtain ⟨_, front, next⟩ := (run.step m).turn.of_handed hands
  rw [waiting, waits, List.cons_append, List.cons.injEq] at front
  obtain ⟨rfl, rfl⟩ := front
  exact ⟨m, le, hands, more, by rw [next]; rfl⟩

/-- A waiting key is handed out.  The induction is on the keys ahead of it. -/
theorem Fair.hands_of_waiting (fair : run.Fair) (ahead behind : List Key)
    (waits : (run.state n).queue.waiting = ahead ++ key :: behind) :
    ∃ m, n ≤ m ∧ run.Hands key m := by
  induction ahead generalizing n behind with
  | nil =>
      obtain ⟨m, le, hands, _⟩ := fair.hands_first waits
      exact ⟨m, le, hands⟩
  | cons first ahead ih =>
      obtain ⟨m, le, _, more, waiting⟩ := fair.hands_first waits
      have closer : (run.state (m + 1)).queue.waiting = ahead ++ key :: (behind ++ more) :=
        waiting.trans (List.append_assoc ahead (key :: behind) more)
      obtain ⟨m', later, hands⟩ := ih (behind ++ more) closer
      exact ⟨m', by omega, hands⟩

variable (run) in
/-- Until it is handed out, a key stays marked. -/
theorem dirty_of_le {m : Nat} (opened : ∀ n, (run.state n).queue.closed = false) (le : n ≤ m)
    (dirty : key ∈ (run.state n).queue.dirty) (kept : ∀ i, n ≤ i → i < m → ¬ run.Hands key i) :
    key ∈ (run.state m).queue.dirty := by
  induction le with
  | refl => exact dirty
  | @step m le ih =>
      refine ((run.step m).turn.mem_dirty (opened m)).mpr (.inr ⟨?_, ?_⟩)
      · exact ih fun i after before => kept i after (Nat.lt_succ_of_lt before)
      · exact kept m le (Nat.lt_succ_self m)

/-- A marked key is handed out: it waits, or it waits as soon as its worker gives it back. -/
theorem Fair.hands_of_dirty (fair : run.Fair)
    (dirty : key ∈ (run.state n).queue.dirty) : ∃ m, n ≤ m ∧ run.Hands key m := by
  obtain waits | busy := (run.sound n).placed key dirty
  · obtain ⟨ahead, behind, waits⟩ := List.append_of_mem waits
    exact fair.hands_of_waiting ahead behind waits
  have listed : key ∈ (run.state n).held.map Prod.snd := ((run.sound n).mem_held key).mp busy
  obtain ⟨⟨w, k⟩, holds, same⟩ := List.mem_map.mp listed
  obtain ⟨m, le, returns⟩ := fair.returns n w k holds
  by_cases before : ∃ i, n ≤ i ∧ i < m ∧ run.Hands key i
  · obtain ⟨i, after, _, hands⟩ := before
    exact ⟨i, after, hands⟩
  have still : key ∈ (run.state m).queue.dirty :=
    run.dirty_of_le fair.opened le dirty fun i after within hands =>
      before ⟨i, after, within, hands⟩
  have turn := (run.step m).turn
  rw [returns, show k = key from same] at turn
  obtain ⟨clean, _⟩ | ⟨_, last⟩ := (run.state m).queue.waiting_done key
  · exact absurd still clean
  rw [← turn.of_returned] at last
  obtain ⟨m', later, hands⟩ := fair.hands_of_waiting _ [] last
  exact ⟨m', by omega, hands⟩

/-- After a key was added it is handed out. -/
theorem Fair.hands_of_adds (fair : run.Fair) (adds : run.Adds key n) :
    ∃ m, n < m ∧ run.Hands key m := by
  have dirty : key ∈ (run.state (n + 1)).queue.dirty :=
    ((run.step n).turn.mem_dirty (fair.opened n)).mpr (.inl adds)
  exact fair.hands_of_dirty dirty

/-- Before the queue is closed, a key is marked exactly if it was added since it was handed out
last, and keys are handed out in the order in which they began to wait.  In a fair run each add is
followed by a hand-out, and the next hand-out after that needs another add; so all adds between two
hand-outs lead to one. -/
theorem no_trigger_lost (run : Run ω) :
    (∀ n key, (run.state n).queue.closed = false →
      (key ∈ (run.state n).queue.dirty ↔ Since (run.Adds key) (run.Hands key) n)) ∧
    (∀ n key, run.Hands key n → Since (run.Adds key) (run.Hands key) n) ∧
    (∀ n, run.arrivals n = run.handOuts n ++ (run.state n).queue.waiting) ∧
    (run.Fair → ∀ n key, run.Adds key n →
      ∃ m, n < m ∧ run.Hands key m ∧ (∀ i, n < i → i < m → ¬ run.Hands key i) ∧
        ∀ m', m < m' → run.Hands key m' → ∃ i, m < i ∧ i < m' ∧ run.Adds key i) := by
  refine ⟨fun n key opened => run.mem_dirty_iff opened, fun n key => run.added_since_of_hands,
    run.arrivals_eq, fun fair n key adds => ?_⟩
  obtain ⟨m, after, hands, first⟩ := exists_first (fair.hands_of_adds adds)
  exact ⟨m, after, hands, first, fun m' later second => run.adds_between hands second later⟩

/-- The key that comes round for ever in `rounds`. -/
def roundKey : Key := ⟨"default", "web"⟩

/-- A single worker is let in, finds nothing and goes to sleep, is woken by an add, is let in again,
takes the key and gives it back, again and again. -/
def roundState (n : Nat) : Crew Unit :=
  match n % 6 with
  | 0 => {}
  | 1 => { inside := [()] }
  | 2 => { floor := { signal := { sleeping := [()] } } }
  | 3 =>
      { floor :=
          { queue := { waiting := [roundKey], dirty := {roundKey} }, signal := { woken := [()] } } }
  | 4 => { floor := { queue := { waiting := [roundKey], dirty := {roundKey} } }, inside := [()] }
  | _ => { floor := { queue := { processing := {roundKey} } }, held := [((), roundKey)] }

def roundEvent (n : Nat) : QueueEvent Unit :=
  match n % 6 with
  | 0 | 3 => .admitted ()
  | 1 => .asked () .asleep
  | 2 => .added roundKey
  | 4 => .asked () (.key roundKey)
  | _ => .returned () roundKey

theorem round_cases (n : Nat) :
    n % 6 = 0 ∨ n % 6 = 1 ∨ n % 6 = 2 ∨ n % 6 = 3 ∨ n % 6 = 4 ∨ n % 6 = 5 := by omega

theorem roundStep (n : Nat) : Step (roundState n) (roundEvent n) (roundState (n + 1)) := by
  obtain now | now | now | now | now | now := round_cases n
  · simp only [roundState, roundEvent, now, show (n + 1) % 6 = 1 by omega]
    exact .enter rfl List.not_mem_nil
  · simp only [roundState, roundEvent, now, show (n + 1) % 6 = 2 by omega]
    exact .serve (w := ()) List.mem_cons_self
  · simp only [roundState, roundEvent, now, show (n + 1) % 6 = 3 by omega]
    exact .add roundKey
  · simp only [roundState, roundEvent, now, show (n + 1) % 6 = 4 by omega]
    exact .enter rfl List.not_mem_nil
  · simp only [roundState, roundEvent, now, show (n + 1) % 6 = 5 by omega]
    exact .serve (w := ()) List.mem_cons_self
  · simp only [roundState, roundEvent, now, show (n + 1) % 6 = 0 by omega]
    exact .giveBack List.mem_cons_self

def rounds : Run Unit where
  state := roundState
  event := roundEvent
  start := rfl
  step := roundStep

/-- The worker is answered in every round. -/
theorem rounds_answered (n : Nat) :
    ∃ m, n ≤ m ∧ ∃ answer, rounds.event m = .asked () answer := by
  have next : (n + (7 - n % 6)) % 6 = 1 := by omega
  exact ⟨n + (7 - n % 6), Nat.le_add_right _ _, .asleep, by simp [rounds, roundEvent, next]⟩

theorem rounds_fair : rounds.Fair where
  staffed := ⟨()⟩
  opened n := by
    change (roundState n).queue.closed = false
    rw [roundState]
    split <;> rfl
  asks n _ _ := rounds_answered n
  serves n _ _ := rounds_answered n
  returns n w key holds := by
    change (w, key) ∈ (roundState n).held at holds
    obtain now | now | now | now | now | now := round_cases n <;> simp [roundState, now] at holds
    obtain rfl := holds
    exact ⟨n, Nat.le_refl n, by simp [rounds, roundEvent, now]⟩

theorem no_trigger_lost_of_rounds :
    rounds.Fair ∧ rounds.Adds roundKey 2 ∧
      ∃ m, 2 < m ∧ rounds.Hands roundKey m ∧ ∀ m', m < m' → rounds.Hands roundKey m' →
        ∃ i, m < i ∧ i < m' ∧ rounds.Adds roundKey i := by
  obtain ⟨_, _, _, served⟩ := no_trigger_lost rounds
  obtain ⟨m, after, hands, _, once⟩ := served rounds_fair 2 roundKey rfl
  exact ⟨rounds_fair, rfl, m, after, hands, once⟩

end Run

end Crew

end Steward
