import Steward.Proofs.Queue
import Steward.Queue.Floor

/-!
# Workers at the queue

A crew is a floor together with the keys that its workers hold.  Anyone may add keys, at once or
later, timers run out in any order, and any worker may ask for a key, for the first time or after it
was woken.  To ask is two steps.  A worker that comes is sent away if the queue is closed and let in
if it is open, and whoever was let in is served some time after that.  In between others may do what
they like: they may add and take keys, give them back, and close the queue.  In the same way an add
or a deadline may come to a queue that was closed after it had been found open, and a timer may take
its deadline along first and add its key some time after that.  A worker gives back only a key that
it holds.  A run goes on for ever; at times nothing happens.

A queue that is closed lets nobody in.  It does not turn out those who are inside, though: each of
them may still get a key.
-/

namespace Steward

variable {ω : Type}

/-- What may happen at the queue. -/
inductive QueueEvent (ω : Type) where
  | idle
  | added (key : Key)
  | deferred (key : Key) (delay : Nat)
  /-- A timer ran out, and its deadline stood. -/
  | fired (timer : QueueTimer)
  /-- A timer ran out after its deadline was replaced. -/
  | lapsed (timer : QueueTimer)
  /-- A timer ran out and took its deadline along; its add is yet to come. -/
  | unscheduled (timer : QueueTimer)
  /-- A worker that asks for a key was let in. -/
  | admitted (w : ω)
  /-- A worker that asked for a key got its answer. -/
  | asked (w : ω) (answer : HandOut)
  | returned (w : ω) (key : Key)
  | closed

namespace QueueEvent

/-- The key that is added by now. -/
def adds? : QueueEvent ω → Option Key
  | .added key => some key
  | .deferred key delay => if delay = 0 then some key else none
  | .fired timer => some timer.key
  | _ => none

/-- The key that is handed out. -/
def hands? : QueueEvent ω → Option Key
  | .asked _ (.key key) => some key
  | _ => none

/-- The keys that are held afterwards, and by whom. -/
def heldAfter [DecidableEq ω] (held : List (ω × Key)) : QueueEvent ω → List (ω × Key)
  | .asked w (.key key) => (w, key) :: held
  | .returned w key => held.erase (w, key)
  | _ => held

/-- Who was let in and has no answer afterwards. -/
def insideAfter [DecidableEq ω] (inside : List ω) : QueueEvent ω → List ω
  | .admitted w => w :: inside
  | .asked w _ => inside.erase w
  | _ => inside

/-- Nothing happens to any key. -/
def Silent : QueueEvent ω → Prop
  | .idle | .lapsed _ | .unscheduled _ | .admitted _ => True
  | .asked _ .dismissed | .asked _ .asleep => True
  | .deferred _ delay => delay ≠ 0
  | _ => False

variable {e : QueueEvent ω} {key : Key}

theorem Silent.adds?_eq_none (silent : e.Silent) : e.adds? = none := by
  cases e with
  | deferred key delay => exact if_neg silent
  | idle | lapsed | unscheduled | admitted | asked => rfl
  | added | fired | returned | closed => cases silent

theorem Silent.hands?_eq_none (silent : e.Silent) : e.hands? = none := by
  cases e with
  | asked w answer => cases answer <;> first | rfl | cases silent
  | idle | lapsed | unscheduled | admitted | deferred => rfl
  | added | fired | returned | closed => cases silent

theorem Silent.heldAfter_eq [DecidableEq ω] (silent : e.Silent) (held : List (ω × Key)) :
    e.heldAfter held = held := by
  cases e with
  | asked w answer => cases answer <;> first | rfl | cases silent
  | idle | lapsed | unscheduled | admitted | deferred => rfl
  | added | fired | returned | closed => cases silent

theorem hands?_of_adds (adds : e.adds? = some key) : e.hands? = none := by
  cases e with
  | asked => cases adds
  | _ => rfl

theorem heldAfter_of_adds [DecidableEq ω] (adds : e.adds? = some key) (held : List (ω × Key)) :
    e.heldAfter held = held := by
  cases e with
  | asked | returned => cases adds
  | _ => rfl

/-- A worker is inside from when it is let in to its answer. -/
theorem mem_insideAfter [DecidableEq ω] {inside : List ω} (nodup : inside.Nodup) {w : ω} :
    w ∈ e.insideAfter inside ↔
      e = .admitted w ∨ w ∈ inside ∧ ¬ ∃ answer, e = .asked w answer := by
  cases e with
  | admitted v => simp [insideAfter, eq_comm]
  | asked v answer =>
      rw [insideAfter, nodup.mem_erase_iff, and_comm]
      simp [eq_comm]
  | _ => simp [insideAfter]

end QueueEvent

namespace Floor

/-- A timer runs out. -/
def runOut (f : Floor ω) (timer : QueueTimer) : Floor ω :=
  let queue := { f.queue with timers := f.queue.timers.erase timer }
  { f with queue }.changed (queue.expire timer)

/-- A timer runs out and takes its deadline along. -/
def unschedule (f : Floor ω) (timer : QueueTimer) : Floor ω :=
  { f with
    queue :=
      { f.queue with
        timers := f.queue.timers.erase timer
        scheduled := f.queue.scheduled.erase timer.key } }

/-- A worker that was woken is about to ask again. -/
def rouse [DecidableEq ω] (f : Floor ω) (w : ω) : Floor ω :=
  { f with signal := { f.signal with woken := f.signal.woken.erase w } }

/-- The timers that the clock lets run out are among these. -/
theorem exists_runOut_of_expire? {f f' : Floor ω} {now : Nat} (expires : f.expire? now = some f') :
    ∃ timer ∈ f.queue.timers, timer.due ≤ now ∧ f' = f.runOut timer := by
  rw [expire?, WorkQueue.popDue?] at expires
  split at expires
  · cases expires
  case h_2 timer found =>
    have due : timer.due ≤ now := by simpa using List.find?_some found
    exact ⟨timer, List.mem_of_find?_eq_some found, due, (Option.some.inj expires).symm⟩

/-- A worker that is served gets the first key, or there is none. -/
theorem serve_cases (f : Floor ω) (w : ω) :
    (∃ key rest, f.queue.waiting = key :: rest ∧
      f.serve w = (.key key, { f with queue := f.queue.handedOut key rest })) ∨
    f.queue.waiting = [] ∧
      f.serve w =
        (.asleep,
          { f with
            signal := if f.queue.closed then f.signal.callBack w else f.signal.sleep w }) := by
  rw [serve]
  cases waits : f.queue.waiting with
  | nil =>
      have none : f.queue.take? = none := WorkQueue.take?_eq_none.mpr waits
      exact .inr ⟨rfl, by rw [none]⟩
  | cons key rest =>
      have some : f.queue.take? = some (key, f.queue.handedOut key rest) :=
        WorkQueue.take?_eq_some.mpr ⟨rest, waits, rfl⟩
      exact .inl ⟨key, rest, rfl, by rw [some]⟩

theorem get_cases (f : Floor ω) (w : ω) :
    (f.queue.closed = true ∧ f.get w = (.dismissed, f)) ∨
    (f.queue.closed = false ∧ ∃ key rest, f.queue.waiting = key :: rest ∧
      f.get w = (.key key, { f with queue := f.queue.handedOut key rest })) ∨
    f.queue.closed = false ∧ f.queue.waiting = [] ∧
      f.get w = (.asleep, { f with signal := f.signal.sleep w }) := by
  rw [get]
  by_cases closed : f.queue.closed = true
  · exact .inl ⟨closed, if_pos closed⟩
  have opened := Bool.eq_false_iff.mpr closed
  rw [if_neg closed]
  obtain ⟨key, rest, first, same⟩ | ⟨none, same⟩ := f.serve_cases w
  · exact .inr (.inl ⟨opened, key, rest, first, same⟩)
  · rw [if_neg closed] at same
    exact .inr (.inr ⟨opened, none, same⟩)

end Floor

structure Crew (ω : Type) where
  floor : Floor ω := {}
  /-- Who holds which key. -/
  held : List (ω × Key) := []
  /-- Who was let in and has no answer yet. -/
  inside : List ω := []

namespace Crew

def queue (s : Crew ω) : WorkQueue := s.floor.queue

variable [DecidableEq ω]

inductive Step : Crew ω → QueueEvent ω → Crew ω → Prop where
  | rest {s : Crew ω} : Step s .idle s
  | add {s : Crew ω} (key : Key) : Step s (.added key) { s with floor := s.floor.add key }
  /-- An add that found the queue open comes to it. -/
  | insert {s : Crew ω} (key : Key) :
      Step s (.added key) { s with floor := s.floor.changed (s.queue.insert key) }
  | addAfter {s : Crew ω} (now delay : Nat) (key : Key) :
      Step s (.deferred key delay) { s with floor := s.floor.addAfter now delay key }
  /-- A deadline that found the queue open comes to it. -/
  | schedule {s : Crew ω} {delay : Nat} (now : Nat) (key : Key) (later : delay ≠ 0) :
      Step s (.deferred key delay)
        { s with floor := s.floor.changed (s.queue.schedule (now + delay) key) }
  | fire {s : Crew ω} {timer : QueueTimer} (running : timer ∈ s.queue.timers)
      (stands : s.queue.scheduled[timer.key]? = some timer.due) :
      Step s (.fired timer) { s with floor := s.floor.runOut timer }
  | lapse {s : Crew ω} {timer : QueueTimer} (running : timer ∈ s.queue.timers)
      (replaced : s.queue.scheduled[timer.key]? ≠ some timer.due) :
      Step s (.lapsed timer) { s with floor := s.floor.runOut timer }
  /-- The first half of `fire`.  The add that follows is a step of its own, `add` or `insert`. -/
  | unschedule {s : Crew ω} {timer : QueueTimer} (running : timer ∈ s.queue.timers)
      (stands : s.queue.scheduled[timer.key]? = some timer.due) :
      Step s (.unscheduled timer) { s with floor := s.floor.unschedule timer }
  | enter {s : Crew ω} {w : ω} (opened : s.queue.closed = false) (outside : w ∉ s.inside) :
      Step s (.admitted w) { s with floor := s.floor.rouse w, inside := w :: s.inside }
  | dismiss {s : Crew ω} {w : ω} (closed : s.queue.closed = true) (outside : w ∉ s.inside) :
      Step s (.asked w .dismissed) { s with floor := s.floor.rouse w }
  | serve {s : Crew ω} {w : ω} (admitted : w ∈ s.inside) :
      Step s (.asked w (s.floor.serve w).1)
        { floor := (s.floor.serve w).2
          held := QueueEvent.heldAfter s.held (.asked w (s.floor.serve w).1)
          inside := s.inside.erase w }
  | giveBack {s : Crew ω} {w : ω} {key : Key} (holds : (w, key) ∈ s.held) :
      Step s (.returned w key)
        { s with floor := s.floor.done key, held := s.held.erase (w, key) }
  | close {s : Crew ω} : Step s .closed { s with floor := s.floor.close }

structure Run (ω : Type) [DecidableEq ω] where
  state : Nat → Crew ω
  event : Nat → QueueEvent ω
  start : state 0 = {}
  step : ∀ n, Step (state n) (event n) (state (n + 1))

/-! ## What a step does to the queue -/

/-- What an event does to the queue, the deadlines apart, where `held` says who holds which key. -/
inductive Turn (held : List (ω × Key)) : WorkQueue → QueueEvent ω → WorkQueue → Prop where
  | silent {q : WorkQueue} {e : QueueEvent ω} {scheduled : KeyMap Nat}
      {timers : List QueueTimer} (silent : e.Silent) : Turn held q e { q with scheduled, timers }
  | added {q : WorkQueue} {e : QueueEvent ω} {key : Key} {scheduled : KeyMap Nat}
      {timers : List QueueTimer} (adds : e.adds? = some key) :
      Turn held q e ({ q with scheduled, timers }.insert key)
  /-- The queue was closed before. -/
  | refused {q : WorkQueue} {e : QueueEvent ω} {key : Key} {scheduled : KeyMap Nat}
      {timers : List QueueTimer} (closed : q.closed = true) (adds : e.adds? = some key) :
      Turn held q e { q with scheduled, timers }
  | handed {q : WorkQueue} {w : ω} {key : Key} {rest : List Key}
      (first : q.waiting = key :: rest) :
      Turn held q (.asked w (.key key)) (q.handedOut key rest)
  | returned {q : WorkQueue} {w : ω} {key : Key} (holds : (w, key) ∈ held) :
      Turn held q (.returned w key) (q.done key)
  | closed {q : WorkQueue} : Turn held q .closed q.close

variable {s t : Crew ω} {e : QueueEvent ω}

omit [DecidableEq ω] in
/-- An add comes to an open queue, or is refused. -/
theorem turn_add {held : List (ω × Key)} {q : WorkQueue} {key : Key} (scheduled : KeyMap Nat)
    (timers : List QueueTimer) (adds : e.adds? = some key) :
    Turn held q e ({ q with scheduled, timers }.add key) := by
  by_cases closed : q.closed = true
  · rw [WorkQueue.add_of_closed (q := { q with scheduled, timers }) closed]
    exact .refused closed adds
  · rw [WorkQueue.add_of_opened (q := { q with scheduled, timers }) (Bool.eq_false_iff.mpr closed)]
    exact .added adds

omit [DecidableEq ω] in
/-- To add a key, at once or later, is a turn of the queue. -/
theorem turn_addAfter (held : List (ω × Key)) (q : WorkQueue) (now delay : Nat) (key : Key) :
    Turn held q (.deferred key delay) (q.addAfter now delay key) := by
  obtain ⟨zero, same⟩ | ⟨later, scheduled, timers, same⟩ := q.addAfter_cases now delay key
  · rw [same]
    exact turn_add q.scheduled q.timers (if_pos zero)
  · rw [same]
    exact .silent later

omit [DecidableEq ω] in
theorem turn_serve (f : Floor ω) (held : List (ω × Key)) (w : ω) :
    Turn held f.queue (.asked w (f.serve w).1) (f.serve w).2.queue := by
  obtain ⟨key, rest, first, same⟩ | ⟨_, same⟩ := f.serve_cases w
  · rw [same]
    exact .handed first
  · rw [same]
    exact .silent trivial

theorem Step.turn (step : Step s e t) : Turn s.held s.queue e t.queue := by
  cases step with
  | rest | unschedule | enter | dismiss => exact .silent trivial
  | add key => exact turn_add s.queue.scheduled s.queue.timers rfl
  | insert key => exact .added rfl
  | addAfter now delay key => exact turn_addAfter _ _ now delay key
  | @schedule delay now key later =>
      obtain ⟨scheduled, timers, same⟩ := s.queue.schedule_eq (now + delay) key
      change Turn _ s.queue _ (s.queue.schedule (now + delay) key)
      rw [same]
      exact .silent later
  | @fire timer _ stands =>
      change Turn _ s.queue _ (WorkQueue.expire { s.queue with timers := _ } timer)
      rw [WorkQueue.expire, if_pos stands]
      exact turn_add _ _ rfl
  | @lapse timer _ replaced =>
      change Turn _ s.queue _ (WorkQueue.expire { s.queue with timers := _ } timer)
      rw [WorkQueue.expire, if_neg replaced]
      exact .silent trivial
  | serve => exact turn_serve s.floor _ _
  | giveBack holds => exact .returned holds
  | close => exact .closed

theorem Step.held_eq (step : Step s e t) : t.held = e.heldAfter s.held := by
  cases step <;> rfl

theorem Step.inside_eq (step : Step s e t) : t.inside = e.insideAfter s.inside := by
  cases step with
  | dismiss _ outside => exact (List.erase_of_not_mem outside).symm
  | _ => rfl

/-- Nobody is let in twice before the answer. -/
theorem Step.inside_nodup (step : Step s e t) (nodup : s.inside.Nodup) : t.inside.Nodup := by
  cases step with
  | enter _ outside => exact List.nodup_cons.mpr ⟨outside, nodup⟩
  | serve => exact nodup.erase _
  | _ => exact nodup

theorem Step.opened_of_admitted {w : ω} (step : Step s (.admitted w) t) :
    s.queue.closed = false := by
  cases step with
  | enter opened => exact opened

/-- Only a worker that was let in is handed a key. -/
theorem Step.inside_of_asked {w : ω} {answer : HandOut} (step : Step s (.asked w answer) t) :
    answer = .dismissed ∨ w ∈ s.inside := by
  cases step with
  | dismiss => exact .inl rfl
  | serve admitted => exact .inr admitted

section Turns

variable {held : List (ω × Key)} {q q' : WorkQueue} {w : ω} {key : Key}

omit [DecidableEq ω] in
/-- What is handed out is the key that waits longest. -/
theorem Turn.of_handed (turn : Turn held q e q') (hands : e.hands? = some key) :
    ∃ rest, q.waiting = key :: rest ∧ q' = q.handedOut key rest := by
  cases turn with
  | silent silent => cases silent.hands?_eq_none.symm.trans hands
  | added adds | refused _ adds => cases (QueueEvent.hands?_of_adds adds).symm.trans hands
  | handed first =>
      cases hands
      exact ⟨_, first, rfl⟩
  | returned | closed => cases hands

omit [DecidableEq ω] in
theorem Turn.closed_of_closed (turn : Turn held q e q') (closed : q.closed = true) :
    q'.closed = true := by
  cases turn with
  | added =>
      rw [WorkQueue.closed_insert]
      exact closed
  | silent | refused | handed | returned => exact closed
  | closed => rfl

omit [DecidableEq ω] in
theorem Turn.closes (turn : Turn held q .closed q') : q'.closed = true := by
  cases turn with
  | silent silent => cases silent
  | added adds | refused _ adds => cases adds
  | closed => rfl

omit [DecidableEq ω] in
theorem Turn.of_returned (turn : Turn held q (.returned w key) q') : q' = q.done key := by
  cases turn with
  | silent silent => cases silent
  | added adds | refused _ adds => cases adds
  | returned => rfl

/-- Who gives a key back holds it no longer. -/
theorem map_snd_erase (nodup : (held.map Prod.snd).Nodup) (holds : (w, key) ∈ held) :
    (held.erase (w, key)).map Prod.snd = (held.map Prod.snd).erase key := by
  induction held with
  | nil => cases holds
  | cons entry rest ih =>
      rw [List.map_cons, List.nodup_cons] at nodup
      by_cases same : entry = (w, key)
      · subst same
        rw [List.erase_cons_head, List.map_cons, List.erase_cons_head]
      · have later : (w, key) ∈ rest := (List.mem_cons.mp holds).resolve_left (Ne.symm same)
        have other : entry.2 ≠ key := by
          intro equal
          exact nodup.1 (equal ▸ List.mem_map_of_mem later)
        rw [List.erase_cons_tail (by simpa using same), List.map_cons, List.map_cons,
          List.erase_cons_tail (by simpa using other), ih nodup.2 later]

theorem Turn.sound (turn : Turn held q e q') (sound : q.Sound (held.map Prod.snd)) :
    q'.Sound ((e.heldAfter held).map Prod.snd) := by
  cases turn with
  | silent silent =>
      rw [silent.heldAfter_eq]
      exact sound.reschedule _ _
  | added adds =>
      rw [QueueEvent.heldAfter_of_adds adds]
      exact (sound.reschedule _ _).insert _
  | refused _ adds =>
      rw [QueueEvent.heldAfter_of_adds adds]
      exact sound.reschedule _ _
  | handed first => exact sound.handedOut first
  | returned holds =>
      rw [QueueEvent.heldAfter, map_snd_erase sound.held_nodup holds]
      exact sound.done (List.mem_map_of_mem holds)
  | closed => exact sound.close

/-- A key stays with its worker until the worker gives it back. -/
theorem mem_heldAfter (holds : (w, key) ∈ held) (kept : e ≠ .returned w key) :
    (w, key) ∈ e.heldAfter held := by
  cases e with
  | asked v answer =>
      cases answer with
      | key k => exact List.mem_cons_of_mem _ holds
      | dismissed | asleep => exact holds
  | returned v k =>
      refine (List.mem_erase_of_ne ?_).mpr holds
      rintro same
      cases same
      exact kept rfl
  | _ => exact holds

end Turns

/-! ## What a run keeps -/

/-- At some time before `n` there was `a`, and `b` has not been since. -/
def Since (a b : Nat → Prop) (n : Nat) : Prop := ∃ i, i < n ∧ a i ∧ ∀ j, i < j → j < n → ¬ b j

theorem since_succ {a b : Nat → Prop} {n : Nat} :
    Since a b (n + 1) ↔ a n ∨ Since a b n ∧ ¬ b n := by
  constructor
  · rintro ⟨i, before, was, kept⟩
    obtain rfl | earlier := Nat.eq_or_lt_of_le (Nat.le_of_lt_succ before)
    · exact .inl was
    · exact .inr ⟨⟨i, earlier, was, fun j after within => kept j after (Nat.lt_succ_of_lt within)⟩,
        kept n earlier (Nat.lt_succ_self n)⟩
  · rintro (now | ⟨⟨i, before, was, kept⟩, still⟩)
    · exact ⟨n, Nat.lt_succ_self n, now, fun j after within => absurd within (by omega)⟩
    · refine ⟨i, Nat.lt_succ_of_lt before, was, fun j after within => ?_⟩
      obtain rfl | earlier := Nat.eq_or_lt_of_le (Nat.le_of_lt_succ within)
      · exact still
      · exact kept j after earlier

namespace Run

variable (run : Run ω)

/-- By `n` the worker was let in, and it has had no answer since. -/
def Inside (w : ω) (n : Nat) : Prop :=
  Since (fun i => run.event i = .admitted w) (fun i => ∃ answer, run.event i = .asked w answer) n

theorem sound (n : Nat) : (run.state n).queue.Sound ((run.state n).held.map Prod.snd) := by
  induction n with
  | zero =>
      rw [run.start]
      exact WorkQueue.sound_empty
  | succ n ih =>
      rw [(run.step n).held_eq]
      exact (run.step n).turn.sound ih

theorem inside_nodup (n : Nat) : (run.state n).inside.Nodup := by
  induction n with
  | zero =>
      rw [run.start]
      exact List.nodup_nil
  | succ n ih => exact (run.step n).inside_nodup ih

theorem mem_inside_iff {w : ω} (n : Nat) : w ∈ (run.state n).inside ↔ run.Inside w n := by
  induction n with
  | zero =>
      rw [run.start]
      refine iff_of_false List.not_mem_nil ?_
      rintro ⟨i, before, _⟩
      exact Nat.not_lt_zero i before
  | succ n ih =>
      rw [(run.step n).inside_eq, QueueEvent.mem_insideAfter (run.inside_nodup n), ih, Inside,
        Inside, since_succ]

theorem closed_of_le {i j : Nat} (le : i ≤ j) (closed : (run.state i).queue.closed = true) :
    (run.state j).queue.closed = true := by
  induction le with
  | refl => exact closed
  | step _ ih => exact (run.step _).turn.closed_of_closed ih

/-- After the queue was closed nobody is let in. -/
theorem not_admitted_of_closed {i j : Nat} (later : i < j) (closes : run.event i = .closed)
    (w : ω) : run.event j ≠ .admitted w := by
  intro admitted
  have closed : (run.state (i + 1)).queue.closed = true := by
    have turn := (run.step i).turn
    rw [closes] at turn
    exact turn.closes
  have step := run.step j
  rw [admitted] at step
  have opened := step.opened_of_admitted
  rw [run.closed_of_le later closed] at opened
  cases opened

/-- After the queue was closed a key goes to a worker that was inside, and is its first answer
since. -/
theorem inside_of_closed {i j : Nat} {w : ω} {key : Key} (later : i < j)
    (closes : run.event i = .closed) (hands : run.event j = .asked w (.key key)) :
    run.Inside w i ∧ ∀ m answer, i < m → m < j → run.event m ≠ .asked w answer := by
  have step := run.step j
  rw [hands] at step
  have inside : w ∈ (run.state j).inside := step.inside_of_asked.resolve_left nofun
  obtain ⟨h, before, admitted, unanswered⟩ := (run.mem_inside_iff j).mp inside
  have earlier : h < i := by
    obtain lower | rfl | higher := Nat.lt_trichotomy h i
    · exact lower
    · cases admitted.symm.trans closes
    · exact absurd admitted (run.not_admitted_of_closed higher closes w)
  refine ⟨⟨h, earlier, admitted, fun m after within => ?_⟩, fun m answer after within asked => ?_⟩
  · exact unanswered m after (Nat.lt_trans within later)
  · exact unanswered m (Nat.lt_trans earlier after) within ⟨answer, asked⟩

/-- A key that was handed out is given back before it is handed out again. -/
theorem returned_between {i j : Nat} {v w : ω} {key : Key} (later : i < j)
    (first : run.event i = .asked v (.key key)) (second : run.event j = .asked w (.key key)) :
    ∃ m, i < m ∧ m < j ∧ run.event m = .returned v key := by
  refine Classical.byContradiction fun kept => ?_
  have holds : ∀ m, i < m → m ≤ j → (v, key) ∈ (run.state m).held := by
    intro m
    induction m with
    | zero => exact fun before => absurd before (Nat.not_lt_zero i)
    | succ m ih =>
        intro after within
        rw [(run.step m).held_eq]
        obtain rfl | after := Nat.eq_or_lt_of_le (Nat.le_of_lt_succ after)
        · rw [first]
          exact List.mem_cons_self
        · refine mem_heldAfter (ih after (Nat.le_of_succ_le within)) fun returns => ?_
          exact kept ⟨m, after, within, returns⟩
  have sound := run.sound j
  obtain ⟨rest, waits, _⟩ := (run.step j).turn.of_handed (congrArg QueueEvent.hands? second)
  have waiting : key ∈ (run.state j).queue.waiting := by
    rw [waits]
    exact List.mem_cons_self
  exact sound.free key waiting
    ((sound.mem_held key).mpr (List.mem_map_of_mem (holds j later (Nat.le_refl j))))

/-- At all times the waiting keys are distinct, marked and free, the marked keys wait or are held,
and no key is held twice; so nobody gets a key before whoever had it gave it back.  Once the queue
is closed nobody is let in, and a key goes only to a worker that was inside when it was closed, as
the first answer that this worker gets since. -/
theorem keys_exclusive :
    (∀ n, (run.state n).queue.waiting.Nodup ∧
      (∀ key ∈ (run.state n).queue.waiting,
        key ∈ (run.state n).queue.dirty ∧ key ∉ (run.state n).queue.processing) ∧
      (∀ key ∈ (run.state n).queue.dirty,
        key ∈ (run.state n).queue.waiting ∨ key ∈ (run.state n).queue.processing) ∧
      ((run.state n).held.map Prod.snd).Nodup ∧
      ∀ key, key ∈ (run.state n).queue.processing ↔ ∃ w, (w, key) ∈ (run.state n).held) ∧
    (∀ i j v w key, i < j → run.event i = .asked v (.key key) →
      run.event j = .asked w (.key key) → ∃ m, i < m ∧ m < j ∧ run.event m = .returned v key) ∧
    ∀ i j, i < j → run.event i = .closed →
      (∀ w, run.event j ≠ .admitted w) ∧
      ∀ w key, run.event j = .asked w (.key key) →
        run.Inside w i ∧ ∀ m answer, i < m → m < j → run.event m ≠ .asked w answer := by
  refine ⟨fun n => ?_, fun i j v w key later first second => ?_, fun i j later closes => ⟨?_, ?_⟩⟩
  · have sound := run.sound n
    refine ⟨sound.waiting_nodup, fun key waits => ⟨sound.marked key waits, sound.free key waits⟩,
      sound.placed, sound.held_nodup, fun key => ?_⟩
    rw [sound.mem_held key, List.mem_map]
    constructor
    · rintro ⟨⟨w, k⟩, holds, rfl⟩
      exact ⟨w, holds⟩
    · rintro ⟨w, holds⟩
      exact ⟨(w, key), holds, rfl⟩
  · exact run.returned_between later first second
  · exact run.not_admitted_of_closed later closes
  · exact fun w key hands => run.inside_of_closed later closes hands

/-- The key that two workers want. -/
def contested : Key := ⟨"default", "web"⟩

/-- Worker 1 holds the key when it is added once more, and worker 2 is let in.  The queue is closed,
worker 1 gives the key back, and worker 2, which is inside, gets it.  Worker 1 is sent away. -/
def overtakenState : Nat → Crew Nat
  | 0 => {}
  | 1 =>
      { floor :=
          { queue := { waiting := [contested], dirty := {contested} }
            signal := { permit := true } } }
  | 2 =>
      { floor :=
          { queue := { waiting := [contested], dirty := {contested} }
            signal := { permit := true } }
        inside := [1] }
  | 3 =>
      { floor := { queue := { processing := {contested} }, signal := { permit := true } }
        held := [(1, contested)] }
  | 4 =>
      { floor :=
          { queue := { dirty := {contested}, processing := {contested} }
            signal := { permit := true } }
        held := [(1, contested)] }
  | 5 =>
      { floor :=
          { queue := { dirty := {contested}, processing := {contested} }
            signal := { permit := true } }
        held := [(1, contested)]
        inside := [2] }
  | 6 =>
      { floor :=
          { queue := { dirty := {contested}, processing := {contested}, closed := true }
            signal := { permit := true } }
        held := [(1, contested)]
        inside := [2] }
  | 7 =>
      { floor :=
          { queue := { waiting := [contested], dirty := {contested}, closed := true }
            signal := { permit := true } }
        inside := [2] }
  | _ =>
      { floor :=
          { queue := { processing := {contested}, closed := true }, signal := { permit := true } }
        held := [(2, contested)] }

def overtakenEvent : Nat → QueueEvent Nat
  | 0 => .added contested
  | 1 => .admitted 1
  | 2 => .asked 1 (.key contested)
  | 3 => .added contested
  | 4 => .admitted 2
  | 5 => .closed
  | 6 => .returned 1 contested
  | 7 => .asked 2 (.key contested)
  | 8 => .asked 1 .dismissed
  | _ => .idle

theorem overtakenStep (n : Nat) :
    Step (overtakenState n) (overtakenEvent n) (overtakenState (n + 1)) :=
  match n with
  | 0 => .add contested
  | 1 => .enter rfl List.not_mem_nil
  | 2 => .serve (w := 1) List.mem_cons_self
  | 3 => .add contested
  | 4 => .enter rfl List.not_mem_nil
  | 5 => .close
  | 6 => .giveBack List.mem_cons_self
  | 7 => .serve (w := 2) List.mem_cons_self
  | 8 => .dismiss rfl List.not_mem_nil
  | _ + 9 => .rest

def overtaken : Run Nat where
  state := overtakenState
  event := overtakenEvent
  start := rfl
  step := overtakenStep

theorem keys_exclusive_of_overtaken :
    (contested ∈ (overtaken.state 4).queue.waiting ∨
      contested ∈ (overtaken.state 4).queue.processing) ∧
    ((overtaken.state 7).queue.waiting.Nodup ∧ contested ∉ (overtaken.state 7).queue.processing) ∧
    (∃ m, 2 < m ∧ m < 7 ∧ overtaken.event m = .returned 1 contested) ∧
    overtaken.event 8 ≠ .admitted 1 ∧
    overtaken.Inside 2 5 ∧ ∀ m answer, 5 < m → m < 7 → overtaken.event m ≠ .asked 2 answer := by
  obtain ⟨fits, alone, late⟩ := keys_exclusive overtaken
  obtain ⟨-, -, placed, -, -⟩ := fits 4
  obtain ⟨nodup, marked, -, -, -⟩ := fits 7
  have dirty : contested ∈ (overtaken.state 4).queue.dirty := by decide
  exact ⟨placed contested dirty, ⟨nodup, (marked contested List.mem_cons_self).2⟩,
    alone 2 7 1 2 contested (by decide) rfl rfl, (late 5 8 (by decide) rfl).1 1,
    (late 5 7 (by decide) rfl).2 2 contested rfl⟩

/-- A queue that was closed may still hand out a key. -/
theorem hands_after_closed :
    ¬ ∀ (run : Run Nat) (i j : Nat), i < j → run.event i = .closed →
      (run.event j).hands? = none := by
  intro none
  cases none overtaken 5 7 (by decide) rfl

end Run

end Crew

end Steward
