import Steward.Proofs.Attention
import Steward.Queue.Desk

/-!
# The earliest deadline counts

An add that was put off is due at a deadline, and of the deadlines that were asked for a key the
earliest alone is kept.  A timer is not called back when its deadline is replaced: when it runs out
it compares its own deadline with the one that is kept, and this tells it from the timer that
counts.  A deadline may be asked for again while such a timer still runs; then two timers agree with
it, and the first of them to run out takes the deadline along.  A run says what happens at a desk,
in which order and at which instants; its clock passes by no timer that has not run out.
-/

namespace Steward

variable {ω : Type}

/-- What may happen at a desk that is not closed. -/
inductive DeskEvent (ω : Type) where
  /-- The clock moved on to an instant. -/
  | passed (clock : Nat)
  | added (key : Key)
  /-- At the instant `now` the add of a key was put off. -/
  | deferred (now delay : Nat) (key : Key)
  /-- A timer ran out, and its deadline stood. -/
  | fired (timer : QueueTimer)
  /-- A timer ran out after its deadline was replaced or had fired. -/
  | lapsed (timer : QueueTimer)
  | asked (w : ω)
  /-- A worker that was woken asked again. -/
  | roused (w : ω)
  | looked
  | returned (key : Key)
  deriving DecidableEq

namespace DeskEvent

/-- The deadlines that were asked for since the key's deadline fired last, where `asked` are those
before the event. -/
def deadlines (key : Key) (asked : List Nat) : DeskEvent ω → List Nat
  | .deferred now delay k => if k = key ∧ delay ≠ 0 then asked ++ [now + delay] else asked
  | .fired timer => if timer.key = key then [] else asked
  | _ => asked

/-- The deadlines that were asked for in a run since the key's deadline fired last. -/
def pending (key : Key) (events : List (DeskEvent ω)) : List Nat :=
  events.foldl (deadlines key) []

/-- At the instant `since` or later the add of a key was put off until the instant `due`. -/
def Requested (events : List (DeskEvent ω)) (key : Key) (since due : Nat) : Prop :=
  ∃ now delay, since ≤ now ∧ delay ≠ 0 ∧ now + delay = due ∧ .deferred now delay key ∈ events

theorem Requested.head {e : DeskEvent ω} {key : Key} {since due : Nat}
    (requested : Requested [e] key since due) (events : List (DeskEvent ω)) :
    Requested (e :: events) key since due := by
  obtain ⟨now, delay, after, later, same, member⟩ := requested
  obtain rfl := List.mem_singleton.mp member
  exact ⟨now, delay, after, later, same, List.mem_cons_self⟩

theorem Requested.cons {events : List (DeskEvent ω)} {key : Key} {since before due : Nat}
    (requested : Requested events key since due) (le : before ≤ since) (e : DeskEvent ω) :
    Requested (e :: events) key before due := by
  obtain ⟨now, delay, after, later, same, member⟩ := requested
  exact ⟨now, delay, Nat.le_trans le after, later, same, List.mem_cons_of_mem e member⟩

end DeskEvent

namespace Desk

section

variable [DecidableEq ω]

/-- What becomes of a desk when an event happens, if it may happen there. -/
def happen? (d : Desk ω) : DeskEvent ω → Option (Desk ω)
  | .passed clock =>
      if d.clock ≤ clock ∧ ∀ timer ∈ d.floor.queue.timers, d.clock < timer.due ∧ clock ≤ timer.due
      then some { d with clock } else none
  | .added key => some { d with floor := d.floor.add key }
  | .deferred now delay key =>
      if now = d.clock then some { d with floor := d.floor.addAfter d.clock delay key } else none
  | .fired timer =>
      if timer ∈ d.floor.queue.timers ∧ timer.due ≤ d.clock ∧
        d.floor.queue.scheduled[timer.key]? = some timer.due
      then some { d with floor := d.floor.runOut timer } else none
  | .lapsed timer =>
      if timer ∈ d.floor.queue.timers ∧ timer.due ≤ d.clock ∧
        d.floor.queue.scheduled[timer.key]? ≠ some timer.due
      then some { d with floor := d.floor.runOut timer } else none
  | .asked w => some (d.serve w)
  | .roused w =>
      if w ∈ d.floor.signal.woken then some ({ d with floor := d.floor.rouse w }.serve w)
      else none
  | .looked => some { d with floor := d.floor.look.2 }
  | .returned key => some { d with floor := d.floor.done key }

/-- What becomes of a desk when events happen one after another. -/
def after? (d : Desk ω) (events : List (DeskEvent ω)) : Option (Desk ω) :=
  events.foldlM happen? d

end

end Desk

/-! ## What an event does to the deadlines -/

/-- What a desk knows of time. -/
structure Dial where
  clock : Nat := 0
  scheduled : KeyMap Nat := ∅
  timers : List QueueTimer := []

def Desk.dial (d : Desk ω) : Dial := ⟨d.clock, d.floor.queue.scheduled, d.floor.queue.timers⟩

namespace Dial

inductive Beat : Dial → DeskEvent ω → Dial → Prop where
  | pass {t : Dial} {clock : Nat} (onward : t.clock ≤ clock)
      (clear : ∀ timer ∈ t.timers, t.clock < timer.due ∧ clock ≤ timer.due) :
      Beat t (.passed clock) { t with clock }
  | idle {t : Dial} {e : DeskEvent ω} (silent : ∀ key asked, e.deadlines key asked = asked) :
      Beat t e t
  /-- The key has a deadline that is no later. -/
  | dominated {t : Dial} {delay deadline : Nat} {key : Key} (later : delay ≠ 0)
      (pending : t.scheduled[key]? = some deadline) (within : deadline ≤ t.clock + delay) :
      Beat t (.deferred t.clock delay key) t
  | postponed {t : Dial} {delay : Nat} {key : Key} (later : delay ≠ 0)
      (earlier : ∀ deadline, t.scheduled[key]? = some deadline → t.clock + delay < deadline) :
      Beat t (.deferred t.clock delay key)
        { t with
          scheduled := t.scheduled.insert key (t.clock + delay)
          timers := t.timers ++ [⟨t.clock + delay, key⟩] }
  | fired {t : Dial} {timer : QueueTimer} (running : timer ∈ t.timers) (due : timer.due ≤ t.clock)
      (stands : t.scheduled[timer.key]? = some timer.due) :
      Beat t (.fired timer)
        { t with
          scheduled := t.scheduled.erase timer.key
          timers := t.timers.erase timer }
  | lapsed {t : Dial} {timer : QueueTimer} (running : timer ∈ t.timers)
      (due : timer.due ≤ t.clock) (replaced : t.scheduled[timer.key]? ≠ some timer.due) :
      Beat t (.lapsed timer) { t with timers := t.timers.erase timer }

end Dial

namespace WorkQueue

variable {q : WorkQueue}

@[simp]
theorem timers_add (q : WorkQueue) (key : Key) : (q.add key).timers = q.timers := by
  rw [add]
  split
  · rfl
  · rw [insert]
    split <;> rfl

/-- A request for which the deadline that is kept is early enough changes nothing. -/
theorem addAfter_eq_self {now delay deadline : Nat} {key : Key} (later : delay ≠ 0)
    (scheduled : q.scheduled[key]? = some deadline) (within : deadline ≤ now + delay) :
    q.addAfter now delay key = q := by
  rw [addAfter, if_neg later, schedule, scheduled]
  split
  · rfl
  · exact if_pos (decide_eq_true within)

/-- The deadlines, the timers and whether the queue is closed are the same. -/
def SameDeadlines (q q' : WorkQueue) : Prop :=
  q'.scheduled = q.scheduled ∧ q'.timers = q.timers ∧ q'.closed = q.closed

theorem sameDeadlines_add (q : WorkQueue) (key : Key) : q.SameDeadlines (q.add key) :=
  ⟨scheduled_add q key, timers_add q key, closed_add q key⟩

end WorkQueue

theorem Signal.length_woken_notifyOne (s : Signal ω) :
    s.notifyOne.woken.length ≤ s.woken.length + 1 := by
  rw [notifyOne]
  cases s.sleeping with
  | nil => exact Nat.le_succ _
  | cons w rest => exact Nat.le_of_eq List.length_append

namespace Desk

variable {d d' : Desk ω} {e : DeskEvent ω}

theorem sameDeadlines_get (f : Floor ω) (w : ω) : f.queue.SameDeadlines (f.get w).2.queue := by
  obtain ⟨_, same⟩ | ⟨_, _, _, _, same⟩ | ⟨_, _, same⟩ := f.get_cases w <;>
    (rw [same]; exact ⟨rfl, rfl, rfl⟩)

theorem serve_cases (d : Desk ω) (w : ω) :
    (d.serve w).floor = (d.floor.get w).2 ∧ (d.serve w).clock = d.clock := by
  rw [serve]
  obtain ⟨_, same⟩ | ⟨_, _, _, _, same⟩ | ⟨_, _, same⟩ := d.floor.get_cases w <;>
    (rw [same]; exact ⟨rfl, rfl⟩)

theorem sameDeadlines_look (f : Floor ω) : f.queue.SameDeadlines f.look.2.queue := by
  rw [Floor.look]
  split
  · exact ⟨rfl, rfl, rfl⟩
  · split
    · next taken =>
        obtain ⟨_, _, rfl⟩ := WorkQueue.take?_eq_some.mp taken
        exact ⟨rfl, rfl, rfl⟩
    · exact ⟨rfl, rfl, rfl⟩

/-- Where nothing changes that concerns deadlines. -/
theorem beat_of_same (same : d.floor.queue.SameDeadlines d'.floor.queue)
    (clock : d'.clock = d.clock) (silent : ∀ key asked, e.deadlines key asked = asked) :
    Dial.Beat d.dial e d'.dial ∧ d'.floor.queue.closed = d.floor.queue.closed := by
  have still : d'.dial = d.dial := by rw [dial, dial, clock, same.1, same.2.1]
  rw [still]
  exact ⟨.idle silent, same.2.2⟩

theorem beat_addAfter (d : Desk ω) (delay : Nat) (key : Key)
    (opened : d.floor.queue.closed = false) :
    Dial.Beat d.dial (.deferred d.clock delay key : DeskEvent ω)
      { d with floor := d.floor.addAfter d.clock delay key : Desk ω }.dial ∧
      (d.floor.addAfter d.clock delay key).queue.closed = d.floor.queue.closed := by
  change Dial.Beat _ _ ⟨d.clock, (d.floor.queue.addAfter _ _ _).scheduled,
    (d.floor.queue.addAfter _ _ _).timers⟩ ∧ (d.floor.queue.addAfter _ _ _).closed = _
  rw [WorkQueue.addAfter, if_neg (by rw [opened]; exact Bool.false_ne_true)]
  by_cases zero : delay = 0
  · rw [if_pos zero, WorkQueue.scheduled_add, WorkQueue.timers_add, WorkQueue.closed_add]
    refine ⟨.idle fun _ _ => if_neg fun later => later.2 zero, rfl⟩
  rw [if_neg zero, WorkQueue.schedule]
  split
  case isTrue dominated =>
    obtain ⟨deadline, pending, within⟩ := (Option.any_eq_true _ _).mp dominated
    exact ⟨.dominated zero pending (of_decide_eq_true within), rfl⟩
  case isFalse earliest =>
    refine ⟨.postponed zero fun deadline pending => ?_, rfl⟩
    rw [show d.floor.queue.scheduled[key]? = some deadline from pending] at earliest
    exact Nat.lt_of_not_le fun within => earliest (decide_eq_true within)

variable [DecidableEq ω]

omit [DecidableEq ω] in
/-- A timer whose deadline stands takes it along and adds the key. -/
theorem queue_fired {f : Floor ω} {timer : QueueTimer}
    (stands : f.queue.scheduled[timer.key]? = some timer.due) :
    (f.runOut timer).queue =
      { f.queue with
        timers := f.queue.timers.erase timer
        scheduled := f.queue.scheduled.erase timer.key }.add timer.key := if_pos stands

omit [DecidableEq ω] in
theorem queue_lapsed {f : Floor ω} {timer : QueueTimer}
    (replaced : f.queue.scheduled[timer.key]? ≠ some timer.due) :
    (f.runOut timer).queue = { f.queue with timers := f.queue.timers.erase timer } :=
  if_neg replaced

/-- What an event does to the deadlines and the clock. -/
theorem beat_of_happen (opened : d.floor.queue.closed = false) (happens : d.happen? e = some d') :
    Dial.Beat d.dial e d'.dial ∧ d'.floor.queue.closed = false := by
  rw [← opened]
  cases e with
  | passed clock =>
      obtain ⟨⟨onward, clear⟩, same⟩ := Option.ite_none_right_eq_some.mp happens
      cases same
      exact ⟨.pass onward clear, rfl⟩
  | added key =>
      cases happens
      exact beat_of_same (WorkQueue.sameDeadlines_add _ key) rfl fun _ _ => rfl
  | deferred now delay key =>
      obtain ⟨rfl, same⟩ := Option.ite_none_right_eq_some.mp happens
      cases same
      exact beat_addAfter d delay key opened
  | fired timer =>
      obtain ⟨⟨running, due, stands⟩, same⟩ := Option.ite_none_right_eq_some.mp happens
      cases same
      change Dial.Beat _ _ ⟨d.clock, (d.floor.runOut timer).queue.scheduled,
        (d.floor.runOut timer).queue.timers⟩ ∧ (d.floor.runOut timer).queue.closed = _
      rw [queue_fired stands, WorkQueue.scheduled_add, WorkQueue.timers_add,
        WorkQueue.closed_add]
      exact ⟨.fired running due stands, rfl⟩
  | lapsed timer =>
      obtain ⟨⟨running, due, replaced⟩, same⟩ := Option.ite_none_right_eq_some.mp happens
      cases same
      change Dial.Beat _ _ ⟨d.clock, (d.floor.runOut timer).queue.scheduled,
        (d.floor.runOut timer).queue.timers⟩ ∧ (d.floor.runOut timer).queue.closed = _
      rw [queue_lapsed replaced]
      exact ⟨.lapsed running due replaced, rfl⟩
  | asked w =>
      cases happens
      obtain ⟨floor, clock⟩ := d.serve_cases w
      exact beat_of_same (floor ▸ sameDeadlines_get d.floor w) clock fun _ _ => rfl
  | roused w =>
      obtain ⟨woken, same⟩ := Option.ite_none_right_eq_some.mp happens
      cases same
      obtain ⟨floor, clock⟩ := { d with floor := d.floor.rouse w : Desk ω }.serve_cases w
      exact beat_of_same (floor ▸ sameDeadlines_get (d.floor.rouse w) w) clock fun _ _ => rfl
  | looked =>
      cases happens
      exact beat_of_same (sameDeadlines_look d.floor) rfl fun _ _ => rfl
  | returned key =>
      cases happens
      exact beat_of_same ⟨rfl, rfl, rfl⟩ rfl fun _ _ => rfl

end Desk

/-! ## What holds in every run -/

namespace Dial

variable {t t' : Dial} {e : DeskEvent ω} {key : Key}

/-- The deadline of a key is the earliest of those that were asked for, a timer with that deadline
runs, and no timer is overdue. -/
structure Kept (t : Dial) (pending : Key → List Nat) : Prop where
  earliest : ∀ key, t.scheduled[key]? = (pending key).min?
  running : ∀ key due, t.scheduled[key]? = some due → ⟨due, key⟩ ∈ t.timers
  ahead : ∀ timer ∈ t.timers, t.clock ≤ timer.due

theorem kept_start : ({} : Dial).Kept fun _ => [] where
  earliest _ := Std.ExtTreeMap.getElem?_empty
  running key due scheduled := by
    rw [show ({} : Dial).scheduled[key]? = none from Std.ExtTreeMap.getElem?_empty] at scheduled
    cases scheduled
  ahead _ := nofun

theorem min?_concat {asked : List Nat} {n m : Nat} (least : m = n ∨ m ∈ asked) (le : m ≤ n)
    (others : ∀ a ∈ asked, m ≤ a) : (asked ++ [n]).min? = some m := by
  refine List.min?_eq_some_iff.mpr ⟨?_, fun a member => ?_⟩
  · obtain rfl | member := least
    · exact List.mem_concat_self
    · exact List.mem_append_left _ member
  · obtain old | new := List.mem_append.mp member
    · exact others a old
    · rwa [List.mem_singleton.mp new]

/-- An event keeps the earliest of the deadlines that were asked for. -/
theorem Beat.kept {pending : Key → List Nat} (beat : Beat t e t') (kept : t.Kept pending) :
    t'.Kept fun key => e.deadlines key (pending key) := by
  cases beat with
  | pass onward clear =>
      exact
        { earliest := kept.earliest
          running := kept.running
          ahead := fun timer runs => (clear timer runs).2 }
  | idle silent =>
      simp only [silent]
      exact kept
  | @dominated delay deadline key later scheduled within =>
      refine { kept with earliest := fun k => ?_ }
      rw [DeskEvent.deadlines]
      split
      · next own =>
          obtain ⟨rfl, _⟩ := own
          rw [kept.earliest] at scheduled
          obtain ⟨member, least⟩ := List.min?_eq_some_iff.mp scheduled
          rw [kept.earliest, scheduled, min?_concat (.inr member) within least]
      · exact kept.earliest k
  | @postponed delay key later earlier =>
      have first : ∀ a ∈ pending key, t.clock + delay ≤ a := by
        intro a member
        have some := List.min?_eq_some_min (List.ne_nil_of_mem member)
        have least := (List.min?_eq_some_iff.mp some).2 a member
        exact Nat.le_trans (Nat.le_of_lt (earlier _ ((kept.earliest key).trans some))) least
      refine { earliest := fun k => ?_, running := fun k due scheduled => ?_, ahead := ?_ }
      · rw [DeskEvent.deadlines, Std.ExtTreeMap.getElem?_insert]
        by_cases own : key = k
        · subst own
          rw [if_pos Std.ReflCmp.compare_self, if_pos ⟨rfl, later⟩,
            min?_concat (.inl rfl) (Nat.le_refl _) first]
        · rw [if_neg (by simpa using own), if_neg fun both => own both.1]
          exact kept.earliest k
      · rw [Std.ExtTreeMap.getElem?_insert] at scheduled
        by_cases own : key = k
        · subst own
          rw [if_pos Std.ReflCmp.compare_self] at scheduled
          cases scheduled
          exact List.mem_concat_self
        · rw [if_neg (by simpa using own)] at scheduled
          exact List.mem_append_left _ (kept.running k due scheduled)
      · intro timer runs
        obtain old | new := List.mem_append.mp runs
        · exact kept.ahead timer old
        · rw [List.mem_singleton.mp new]
          exact Nat.le_add_right _ _
  | @fired timer runs due stands =>
      refine
        { earliest := fun k => ?_
          running := fun k due scheduled => ?_
          ahead := fun other runs => kept.ahead other (List.mem_of_mem_erase runs) }
      · rw [DeskEvent.deadlines, Std.ExtTreeMap.getElem?_erase]
        by_cases own : timer.key = k
        · rw [if_pos (by simpa using own), if_pos own]
          rfl
        · rw [if_neg (by simpa using own), if_neg own]
          exact kept.earliest k
      · rw [Std.ExtTreeMap.getElem?_erase] at scheduled
        by_cases own : timer.key = k
        · rw [if_pos (by simpa using own)] at scheduled
          cases scheduled
        · rw [if_neg (by simpa using own)] at scheduled
          refine (List.mem_erase_of_ne ?_).mpr (kept.running k due scheduled)
          rintro rfl
          exact own rfl
  | @lapsed timer runs due replaced =>
      refine
        { earliest := kept.earliest
          running := fun k due scheduled => ?_
          ahead := fun other runs => kept.ahead other (List.mem_of_mem_erase runs) }
      refine (List.mem_erase_of_ne ?_).mpr (kept.running k due scheduled)
      rintro rfl
      exact replaced scheduled

/-- A deadline stays until it fires, unless one that is asked for now is earlier. -/
theorem Beat.scheduled_or_fired {deadline : Nat} (beat : Beat t e t')
    (scheduled : t.scheduled[key]? = some deadline) :
    ∃ due ≤ deadline, (due = deadline ∨ DeskEvent.Requested [e] key t.clock due) ∧
      (t'.scheduled[key]? = some due ∨ e = .fired ⟨due, key⟩) := by
  cases beat with
  | pass | idle | dominated | lapsed =>
      exact ⟨deadline, Nat.le_refl _, .inl rfl, .inl scheduled⟩
  | @postponed delay k later earlier =>
      rw [Std.ExtTreeMap.getElem?_insert]
      by_cases own : k = key
      · subst own
        rw [if_pos Std.ReflCmp.compare_self]
        exact ⟨_, Nat.le_of_lt (earlier deadline scheduled),
          .inr ⟨_, delay, Nat.le_refl _, later, rfl, List.mem_singleton_self _⟩, .inl rfl⟩
      · rw [if_neg (by simpa using own)]
        exact ⟨deadline, Nat.le_refl _, .inl rfl, .inl scheduled⟩
  | @fired timer runs due stands =>
      refine ⟨deadline, Nat.le_refl _, .inl rfl, ?_⟩
      by_cases own : timer.key = key
      · subst own
        rw [stands] at scheduled
        cases scheduled
        exact .inr rfl
      · rw [Std.ExtTreeMap.getElem?_erase, if_neg (by simpa using own)]
        exact .inl scheduled

theorem Beat.clock_le (beat : Beat t e t') : t.clock ≤ t'.clock := by
  cases beat with
  | pass onward => exact onward
  | _ => exact Nat.le_refl _

/-- A deadline that is asked for after an event was asked for before it or by it. -/
theorem mem_deadlines {asked : List Nat} {now due : Nat}
    (instant : ∀ time delay k, e = .deferred time delay k → time = now)
    (member : due ∈ e.deadlines key asked) :
    due ∈ asked ∨ DeskEvent.Requested [e] key now due := by
  cases e with
  | deferred time delay k =>
      rw [DeskEvent.deadlines] at member
      split at member
      · next own =>
          obtain ⟨rfl, later⟩ := own
          obtain old | new := List.mem_append.mp member
          · exact .inl old
          · exact .inr ⟨time, delay, Nat.le_of_eq (instant _ _ _ rfl).symm, later,
              (List.mem_singleton.mp new).symm, List.mem_singleton_self _⟩
      · exact .inl member
  | fired timer =>
      rw [DeskEvent.deadlines] at member
      split at member
      · cases member
      · exact .inl member
  | _ => exact .inl member

end Dial

namespace Desk

variable [DecidableEq ω] {d d' : Desk ω} {key : Key} {events : List (DeskEvent ω)}

theorem after?_cons {e : DeskEvent ω} :
    d.after? (e :: events) = some d' ↔
      ∃ next, d.happen? e = some next ∧ next.after? events = some d' :=
  Option.bind_eq_some_iff

theorem after?_append {more : List (DeskEvent ω)} :
    d.after? (events ++ more) = some d' ↔
      ∃ next, d.after? events = some next ∧ next.after? more = some d' := by
  rw [after?, List.foldlM_append]
  exact Option.bind_eq_some_iff

/-- In a run the earliest of the deadlines that were asked for is kept. -/
theorem kept_of_after {pending : Key → List Nat} (opened : d.floor.queue.closed = false)
    (kept : d.dial.Kept pending) (run : d.after? events = some d') :
    d'.floor.queue.closed = false ∧
      d'.dial.Kept fun key => events.foldl (DeskEvent.deadlines key) (pending key) := by
  induction events generalizing d pending with
  | nil =>
      cases run
      exact ⟨opened, kept⟩
  | cons e events ih =>
      obtain ⟨next, happens, run⟩ := after?_cons.mp run
      obtain ⟨beat, opened⟩ := beat_of_happen opened happens
      exact ih opened (beat.kept kept) run

/-- In a run a deadline stays until it fires, unless an earlier one is asked for. -/
theorem scheduled_or_fired_of_after {deadline : Nat} (opened : d.floor.queue.closed = false)
    (scheduled : d.floor.queue.scheduled[key]? = some deadline) (run : d.after? events = some d') :
    ∃ due ≤ deadline, (due = deadline ∨ DeskEvent.Requested events key d.clock due) ∧
      (d'.floor.queue.scheduled[key]? = some due ∨ .fired ⟨due, key⟩ ∈ events) := by
  induction events generalizing d deadline with
  | nil =>
      cases run
      exact ⟨deadline, Nat.le_refl _, .inl rfl, .inl scheduled⟩
  | cons e events ih =>
      obtain ⟨next, happens, run⟩ := after?_cons.mp run
      obtain ⟨beat, opened⟩ := beat_of_happen opened happens
      obtain ⟨due, within, named, scheduled | rfl⟩ := beat.scheduled_or_fired scheduled
      · obtain ⟨last, earlier, origin, ends⟩ := ih opened scheduled run
        refine ⟨last, Nat.le_trans earlier within, ?_, ends.imp_right (List.mem_cons_of_mem e)⟩
        obtain rfl | requested := origin
        · exact named.imp_right fun requested => requested.head events
        · exact .inr (requested.cons beat.clock_le e)
      · exact ⟨due, within, named.imp_right fun requested => requested.head events,
          .inr List.mem_cons_self⟩

theorem clock_of_deferred {now delay : Nat} {k : Key}
    (happens : d.happen? (.deferred now delay k) = some d') : now = d.clock :=
  (Option.ite_none_right_eq_some.mp happens).1

/-- Whatever was asked for after a run was asked for before or in the course of it. -/
theorem mem_pending_of_after {asked : List Nat} {due : Nat} (opened : d.floor.queue.closed = false)
    (run : d.after? events = some d')
    (member : due ∈ events.foldl (DeskEvent.deadlines key) asked) :
    due ∈ asked ∨ DeskEvent.Requested events key d.clock due := by
  induction events generalizing d asked with
  | nil => exact .inl member
  | cons e events ih =>
      obtain ⟨next, happens, run⟩ := after?_cons.mp run
      obtain ⟨beat, opened⟩ := beat_of_happen opened happens
      obtain old | requested := ih opened run member
      · have instant : ∀ time delay k, e = .deferred time delay k → time = d.clock := by
          rintro time delay k rfl
          exact clock_of_deferred happens
        exact (Dial.mem_deadlines instant old).imp_right fun requested => requested.head events
      · exact .inr (requested.cons beat.clock_le e)

/-- A deadline fires at its instant. -/
theorem eq_clock_of_fired {pending : Key → List Nat} {timer : QueueTimer}
    (kept : d.dial.Kept pending) (happens : d.happen? (.fired timer) = some d') :
    timer.due = d.clock ∧ d.floor.queue.scheduled[timer.key]? = some timer.due ∧
      d'.floor = d.floor.runOut timer ∧ d'.clock = d.clock := by
  obtain ⟨⟨running, due, stands⟩, same⟩ := Option.ite_none_right_eq_some.mp happens
  cases same
  exact ⟨Nat.le_antisymm due (kept.ahead timer running), stands, rfl, rfl⟩

/-- What holds of the deadlines in every run of a desk. -/
theorem kept_of_run (run : ({} : Desk ω).after? events = some d) :
    d.floor.queue.closed = false ∧ d.dial.Kept fun key => DeskEvent.pending key events := by
  have start : ({} : Desk ω).dial.Kept fun _ => [] := Dial.kept_start
  exact kept_of_after rfl start run

/-- Two deadlines of a key fire one after the other, and the second was asked for in between. -/
theorem requested_between {before between : List (DeskEvent ω)} {first second : Nat}
    (run : ({} : Desk ω).after? (before ++ .fired ⟨first, key⟩ :: between) = some d)
    (happens : d.happen? (.fired ⟨second, key⟩) = some d') :
    first < second ∧ DeskEvent.Requested between key first second := by
  obtain ⟨opened, kept⟩ := kept_of_run run
  obtain ⟨-, stands, -⟩ := eq_clock_of_fired kept happens
  obtain ⟨once, begins, tail⟩ := after?_append.mp run
  obtain ⟨next, fires, rest⟩ := after?_cons.mp tail
  obtain ⟨openedOnce, keptOnce⟩ := kept_of_run begins
  obtain ⟨rfl, -, -, clock⟩ := eq_clock_of_fired keptOnce fires
  have member : second ∈ DeskEvent.pending key (before ++ .fired ⟨once.clock, key⟩ :: between) :=
    List.min?_mem ((kept.earliest key).symm.trans stands)
  have forgotten : DeskEvent.pending key (before ++ .fired ⟨once.clock, key⟩ :: between) =
      between.foldl (DeskEvent.deadlines key) [] := by
    rw [DeskEvent.pending, List.foldl_append, List.foldl_cons, DeskEvent.deadlines, if_pos rfl]
  rw [forgotten] at member
  obtain ⟨-, openedNext⟩ := beat_of_happen openedOnce fires
  obtain old | requested := mem_pending_of_after openedNext rest member
  · cases old
  · rw [clock] at requested
    refine ⟨?_, requested⟩
    obtain ⟨now, delay, after, later, same, -⟩ := requested
    omega

omit [DecidableEq ω] in
theorem lt_due_of_expire? {f : Floor ω} {now : Nat} {timer : QueueTimer}
    (rest : f.expire? now = none) (running : timer ∈ f.queue.timers) : now < timer.due := by
  rw [Floor.expire?, Option.map_eq_none_iff, WorkQueue.popDue?] at rest
  split at rest
  · next none =>
      have late := List.find?_eq_none.mp none timer running
      exact Nat.lt_of_not_le fun due => late (decide_eq_true due)
  · cases rest

/-- In every run each key has one deadline at most, the earliest that was asked for since one fired,
and it lies ahead once the timers that are due have run out.  A deadline fires at its own instant,
and then it goes and its key is added; no other timer does anything, nor does a request for which
the deadline that is kept is early enough.  No deadline is missed, and none fires that was not asked
for since the last one fired.  Instants have no upper bound here, so the deadline exists for every
delay. -/
theorem earliest_deadline_counts (run : ({} : Desk ω).after? events = some d) (key : Key) :
    d.floor.queue.scheduled[key]? = (DeskEvent.pending key events).min? ∧
    (∀ deadline, d.floor.queue.scheduled[key]? = some deadline →
      d.clock ≤ deadline ∧ (d.floor.expire? d.clock = none → d.clock < deadline)) ∧
    (∀ due d', d.happen? (.fired ⟨due, key⟩) = some d' →
      due = d.clock ∧ d.floor.queue.scheduled[key]? = some due ∧
      d'.floor.queue =
        { d.floor.queue with
          timers := d.floor.queue.timers.erase ⟨due, key⟩
          scheduled := d.floor.queue.scheduled.erase key }.add key ∧
      d'.floor.queue.scheduled[key]? = none) ∧
    (∀ due d', d.happen? (.lapsed ⟨due, key⟩) = some d' →
      d'.floor.queue =
        { d.floor.queue with timers := d.floor.queue.timers.erase ⟨due, key⟩ }) ∧
    (∀ delay d', delay ≠ 0 → d.happen? (.deferred d.clock delay key) = some d' →
      (∃ scheduled timers, d'.floor.queue = { d.floor.queue with scheduled, timers }) ∧
      ∀ deadline ≤ d.clock + delay, d.floor.queue.scheduled[key]? = some deadline →
        d'.floor.queue = d.floor.queue) ∧
    (∀ later d' deadline, d.after? later = some d' →
      d.floor.queue.scheduled[key]? = some deadline → deadline < d'.clock →
      ∃ due ≤ deadline, .fired ⟨due, key⟩ ∈ later ∧
        (due = deadline ∨ DeskEvent.Requested later key d.clock due)) ∧
    ∀ before first between second after,
      events = before ++ .fired ⟨first, key⟩ :: (between ++ .fired ⟨second, key⟩ :: after) →
      first < second ∧ DeskEvent.Requested between key first second := by
  obtain ⟨opened, kept⟩ := kept_of_run run
  refine ⟨kept.earliest key, fun deadline scheduled => ?_, fun due d' happens => ?_,
    fun due d' happens => ?_, fun delay d' later happens => ?_,
    fun later d' deadline more scheduled past => ?_,
    fun before first between second after same => ?_⟩
  · have running := kept.running key deadline scheduled
    exact ⟨kept.ahead _ running, fun rest => lt_due_of_expire? rest running⟩
  · obtain ⟨now, stands, floor, -⟩ := eq_clock_of_fired kept happens
    have queue := queue_fired stands
    refine ⟨now, stands, floor ▸ queue, ?_⟩
    rw [floor, queue, WorkQueue.scheduled_add]
    exact Std.ExtTreeMap.getElem?_erase_self
  · obtain ⟨⟨_, _, replaced⟩, same⟩ := Option.ite_none_right_eq_some.mp happens
    cases same
    exact queue_lapsed replaced
  · obtain ⟨-, same⟩ := Option.ite_none_right_eq_some.mp happens
    cases same
    refine ⟨?_, fun deadline within scheduled => ?_⟩
    · obtain ⟨zero, -⟩ | ⟨-, only⟩ := d.floor.queue.addAfter_cases d.clock delay key
      · exact absurd zero later
      · exact only
    · exact WorkQueue.addAfter_eq_self later scheduled within
  · obtain ⟨opened', kept'⟩ := kept_of_after opened kept more
    obtain ⟨due, within, origin, left | fired⟩ := scheduled_or_fired_of_after opened scheduled more
    · have ahead := kept'.ahead _ (kept'.running key due left)
      exact absurd (Nat.le_trans ahead within) (Nat.not_le.mpr past)
    · exact ⟨due, within, fired, origin⟩
  · rw [same, List.append_cons, ← List.append_assoc, after?_append] at run
    obtain ⟨twice, begins, rest⟩ := run
    obtain ⟨_, fires, _⟩ := after?_cons.mp rest
    rw [List.append_assoc] at begins
    exact requested_between begins fires

def sampleKey : Key := ⟨"default", "web"⟩

/-- The deadline 5 is asked for twice, before the deadline 2 fires and after, so two timers agree
with it. -/
def sampleRun : List (DeskEvent Nat) :=
  [.deferred 0 5 sampleKey, .deferred 0 8 sampleKey, .deferred 0 2 sampleKey, .passed 2,
    .fired ⟨2, sampleKey⟩, .deferred 2 3 sampleKey, .passed 5, .fired ⟨5, sampleKey⟩,
    .lapsed ⟨5, sampleKey⟩]

theorem earliest_deadline_counts_of_sample :
    ∃ d d' ended : Desk Nat,
      ({} : Desk Nat).after? (sampleRun.take 4) = some d ∧
      d.floor.queue.scheduled[sampleKey]? = (DeskEvent.pending sampleKey (sampleRun.take 4)).min? ∧
      d.happen? (.fired ⟨2, sampleKey⟩) = some d' ∧ d'.floor.queue.scheduled[sampleKey]? = none ∧
      ({} : Desk Nat).after? sampleRun = some ended ∧
      DeskEvent.Requested [(.deferred 2 3 sampleKey : DeskEvent Nat), .passed 5] sampleKey 2 5 := by
  have begun : (({} : Desk Nat).after? (sampleRun.take 4)).isSome := by decide +kernel
  have fires : ((({} : Desk Nat).after? (sampleRun.take 4)).bind fun d =>
    d.happen? (.fired ⟨2, sampleKey⟩)).isSome := by decide +kernel
  have ends : (({} : Desk Nat).after? sampleRun).isSome := by decide +kernel
  obtain ⟨d, begun⟩ := Option.isSome_iff_exists.mp begun
  obtain ⟨ended, ends⟩ := Option.isSome_iff_exists.mp ends
  rw [begun, Option.bind_some] at fires
  obtain ⟨d', fires⟩ := Option.isSome_iff_exists.mp fires
  obtain ⟨earliest, -, fired, -⟩ := earliest_deadline_counts begun sampleKey
  obtain ⟨-, -, -, -, -, -, between⟩ := earliest_deadline_counts ends sampleKey
  exact ⟨d, d', ended, begun, earliest, fires, (fired 2 d' fires).2.2.2, ends,
    (between (sampleRun.take 4) 2 [.deferred 2 3 sampleKey, .passed 5] 5
      [.lapsed ⟨5, sampleKey⟩] rfl).2⟩

/-! ## Whatever is asked of a desk is a run -/

/-- Events lead from one desk to another. -/
def Leads (d d' : Desk ω) : Prop := ∃ events, d.after? events = some d'

theorem Leads.refl (d : Desk ω) : d.Leads d := ⟨[], rfl⟩

theorem Leads.trans {d'' : Desk ω} (first : d.Leads d') (second : d'.Leads d'') : d.Leads d'' := by
  obtain ⟨events, first⟩ := first
  obtain ⟨more, second⟩ := second
  exact ⟨events ++ more, after?_append.mpr ⟨d', first, second⟩⟩

theorem leads_of_happen {e : DeskEvent ω} (happens : d.happen? e = some d') : d.Leads d' :=
  ⟨[e], after?_cons.mpr ⟨d', happens, rfl⟩⟩

/-- What happens by itself is that a timer runs out or that a worker who was woken asks again. -/
theorem step?_cases (steps : d.step? = some d') :
    (∃ timer ∈ d.floor.queue.timers, timer.due ≤ d.clock ∧
      d' = { d with floor := d.floor.runOut timer }) ∨
    ∃ w rest, d.floor.signal.woken = w :: rest ∧
      d' = { d with floor := d.floor.rouse w }.serve w := by
  rw [step?] at steps
  split at steps
  · next expires =>
      cases steps
      obtain ⟨timer, running, due, rfl⟩ := Floor.exists_runOut_of_expire? expires
      exact .inl ⟨timer, running, due, rfl⟩
  · obtain ⟨⟨w, signal⟩, popped, same⟩ := Option.map_eq_some_iff.mp steps
    rw [Signal.popWoken?] at popped
    split at popped
    · cases popped
    · next rest woken =>
        cases popped
        refine .inr ⟨w, rest, woken, ?_⟩
        rw [← same, Floor.rouse, woken, List.erase_cons_head]

theorem leads_of_step (steps : d.step? = some d') : d.Leads d' := by
  obtain ⟨timer, running, due, rfl⟩ | ⟨w, rest, woken, rfl⟩ := step?_cases steps
  · by_cases stands : d.floor.queue.scheduled[timer.key]? = some timer.due
    · exact leads_of_happen (e := .fired timer) (if_pos ⟨running, due, stands⟩)
    · exact leads_of_happen (e := .lapsed timer) (if_pos ⟨running, due, stands⟩)
  · exact leads_of_happen (e := .roused w) (if_pos (woken ▸ List.mem_cons_self))

theorem leads_settleWithin (budget : Nat) (d : Desk ω) :
    d.Leads (timeline.settleWithin budget d) := by
  induction budget generalizing d with
  | zero => exact .refl d
  | succ budget ih =>
      rw [Timeline.settleWithin]
      split
      · exact .refl d
      · next next steps => exact (leads_of_step steps).trans (ih next)

theorem leads_settle (d : Desk ω) : d.Leads d.settle := leads_settleWithin _ d

omit [DecidableEq ω] in
theorem timers_runOut (f : Floor ω) (timer : QueueTimer) :
    (f.runOut timer).queue.timers = f.queue.timers.erase timer := by
  by_cases stands : f.queue.scheduled[timer.key]? = some timer.due
  · rw [queue_fired stands, WorkQueue.timers_add]
  · rw [queue_lapsed stands]

omit [DecidableEq ω] in
theorem woken_changed_le (f : Floor ω) (queue : WorkQueue) :
    (f.changed queue).signal.woken.length ≤ f.signal.woken.length + 1 := by
  rw [Floor.changed]
  dsimp only
  split
  · exact f.signal.length_woken_notifyOne
  · exact Nat.le_succ _

omit [DecidableEq ω] in
theorem woken_get (f : Floor ω) (w : ω) : (f.get w).2.signal.woken = f.signal.woken := by
  obtain ⟨_, same⟩ | ⟨_, _, _, _, same⟩ | ⟨_, _, same⟩ := f.get_cases w <;> rw [same]
  rfl

theorem burden_step (steps : d.step? = some d') : burden d'.floor < burden d.floor := by
  obtain ⟨timer, running, due, rfl⟩ | ⟨w, rest, woken, rfl⟩ := step?_cases steps
  · have wakes : (d.floor.runOut timer).signal.woken.length ≤ d.floor.signal.woken.length + 1 :=
      woken_changed_le _ _
    have fewer := List.length_erase_of_mem running
    have some := List.length_pos_of_mem running
    change burden (d.floor.runOut timer) < _
    rw [burden, burden, timers_runOut, fewer]
    omega
  · have floor := ({ d with floor := d.floor.rouse w : Desk ω }.serve_cases w).1
    have timers : ((d.floor.rouse w).get w).2.queue.timers = d.floor.queue.timers :=
      (sameDeadlines_get (d.floor.rouse w) w).2.1
    have left : (d.floor.rouse w).signal.woken = rest := by
      rw [Floor.rouse, woken, List.erase_cons_head]
    rw [burden, burden, floor, timers, woken_get, left, woken, List.length_cons]
    omega

/-- A desk comes to rest within its burden. -/
theorem step?_settleWithin {budget : Nat} (enough : burden d.floor ≤ budget) :
    (timeline.settleWithin budget d).step? = none := by
  induction budget generalizing d with
  | zero =>
      rw [Timeline.settleWithin, Option.eq_none_iff_forall_ne_some]
      intro next steps
      have fewer := burden_step steps
      omega
  | succ budget ih =>
      rw [Timeline.settleWithin]
      split
      · next rest => exact rest
      · next next steps =>
          have fewer := burden_step steps
          exact ih (by omega)

theorem step?_settle (d : Desk ω) : d.settle.step? = none := step?_settleWithin (Nat.le_refl _)

theorem clock_of_step (steps : d.step? = some d') : d'.clock = d.clock := by
  obtain ⟨_, _, _, rfl⟩ | ⟨w, _, _, rfl⟩ := step?_cases steps
  · rfl
  · exact (serve_cases _ w).2

theorem clock_settle (d : Desk ω) : d.settle.clock = d.clock := by
  have within (budget : Nat) (d : Desk ω) : (timeline.settleWithin budget d).clock = d.clock := by
    induction budget generalizing d with
    | zero => rfl
    | succ budget ih =>
        rw [Timeline.settleWithin]
        split
        · rfl
        · next next steps => exact (ih next).trans (clock_of_step steps)
  exact within _ d

omit [DecidableEq ω] in
theorem lt_due_of_rest {timer : QueueTimer} (rest : d.step? = none)
    (running : timer ∈ d.floor.queue.timers) : d.clock < timer.due := by
  refine lt_due_of_expire? ?_ running
  rw [step?] at rest
  split at rest
  · cases rest
  · next none => exact none

omit [DecidableEq ω] in
/-- The next timer of a queue is the first that is due. -/
theorem le_due_of_due? {q : WorkQueue} {due : Nat} (next : q.due? = some due) :
    ∀ timer ∈ q.timers, due ≤ timer.due := fun timer running =>
  (List.min?_eq_some_iff.mp next).2 timer.due (List.mem_map_of_mem running)

omit [DecidableEq ω] in
theorem timers_of_idle {q : WorkQueue} (idle : q.due? = none) : q.timers = [] :=
  List.map_eq_nil_iff.mp (List.min?_eq_none_iff.mp idle)

omit [DecidableEq ω] in
/-- At rest the timers are beyond a target, unless the next of them is on the way there. -/
theorem lt_due_of_behind {target due : Nat} (rest : d.step? = none)
    (next : d.floor.queue.due? = some due) (behind : ¬ (d.clock < due ∧ due ≤ target)) :
    ∀ timer ∈ d.floor.queue.timers, target < timer.due := by
  intro timer running
  obtain ⟨earliest, member, rfl⟩ := List.mem_map.mp (List.min?_mem next)
  have ahead := lt_due_of_rest rest member
  have first := le_due_of_due? next timer running
  omega

/-- The clock moves on to an instant when nothing is left to do before. -/
theorem leads_setClock {target : Nat} (onward : d.clock ≤ target) (rest : d.step? = none)
    (clear : ∀ timer ∈ d.floor.queue.timers, target ≤ timer.due) :
    d.Leads { d with clock := target } :=
  leads_of_happen (e := .passed target)
    (if_pos ⟨onward, fun timer running => ⟨lt_due_of_rest rest running, clear timer running⟩⟩)

theorem leads_visit (target now : Nat) {d : Desk ω} (rest : d.step? = none)
    (shows : d.clock = now) (onward : now ≤ target) :
    d.Leads (timeline.setClock (timeline.visit target now d) target) := by
  induction now, d using Timeline.visit.induct timeline target with
  | case1 now d idle =>
      rw [Timeline.visit, idle]
      exact leads_setClock (shows ▸ onward) rest (by rw [timers_of_idle idle]; exact nofun)
  | case2 now d due next ahead ih =>
      rw [Timeline.visit, next]
      simp only [dif_pos ahead]
      have reached : d.Leads { d with clock := due } :=
        leads_setClock (by omega) rest (le_due_of_due? next)
      exact (reached.trans (leads_settle _)).trans
        (ih (step?_settle _) (clock_settle _) ahead.2)
  | case3 now d due next behind =>
      rw [Timeline.visit, next]
      simp only [dif_neg behind]
      have beyond := lt_due_of_behind rest next (shows ▸ behind)
      exact leads_setClock (shows ▸ onward) rest fun timer running =>
        Nat.le_of_lt (beyond timer running)

/-- Whatever is asked of a desk but to close is a run: it happens, and then all that happens by
itself. -/
theorem operations_lead (d : Desk ω) :
    (∀ key, d.Leads (d.add key)) ∧ (∀ delay key, d.Leads (d.addAfter delay key)) ∧
    (∀ key, d.Leads (d.done key)) ∧ (∀ w, d.Leads (d.wait w)) ∧ d.Leads d.look.2 ∧
    ∀ ms, d.Leads (d.advance ms) := by
  refine ⟨fun key => ?_, fun delay key => ?_, fun key => ?_, fun w => ?_, ?_, fun ms => ?_⟩
  · exact (leads_of_happen (e := .added key) rfl).trans (leads_settle _)
  · exact (leads_of_happen (e := .deferred d.clock delay key) (if_pos rfl)).trans (leads_settle _)
  · exact (leads_of_happen (e := .returned key) rfl).trans (leads_settle _)
  · exact (leads_of_happen (e := .asked w) rfl).trans (leads_settle _)
  · exact (leads_of_happen (e := .looked) rfl).trans (leads_settle _)
  · exact (leads_settle d).trans
      (leads_visit _ _ (step?_settle d) (clock_settle d) (Nat.le_add_right _ _))

end Desk

end Steward
