import Mathlib.Data.List.Perm.Basic
import Steward.Proofs.Parked

/-!
# When a parked condition lands

In a backend that completes on its own every accepted call sets a timer, and whichever timer of a
resource runs out first lands what is parked for it then.  The timers are not told apart: one that
an earlier call set lands what a later call parked, before that call's own time is over.  It is
never late, though, because the call's own timer is still running.  A history notes what was
accepted and what landed, each with its instant, newest first.
-/

namespace Steward.Backend

/-! ## What calls park -/

/-- The condition in which an accepted call ends. -/
def Reaction.final? : Reaction → Option Condition
  | .createAsync | .updateAsync => some .ready
  | .createCompleteFail => some .error
  | .deleteAsync => some .missing
  | _ => none

theorem Reaction.isAsync_eq (reaction : Reaction) : reaction.isAsync = reaction.final?.isSome := by
  cases reaction <;> rfl

theorem Resource.parked_receive (r : Resource) (request : Request) :
    (r.receive request).2.parked = (r.select request).final?.or r.parked := by
  rw [receive]
  cases r.select request <;> rfl

theorem Resource.parked_complete (r : Resource) : r.complete.2.parked = none := by
  cases parked : r.parked with
  | none => rw [complete, parked]; exact parked
  | some condition => rw [complete, parked]

/-! ## Backends on a clock -/

/-- A backend, and what the clock shows. -/
structure Timed where
  now : Nat
  backend : Backend

/-- What is noted of a step. -/
inductive Note where
  /-- A call on the resource was accepted, and will end in this condition. -/
  | accepted (id : String) (final : Condition)
  | cleared
  /-- This condition, which was parked for the resource, was entered. -/
  | landed (id : String) (condition : Condition)
  | nothing
  deriving DecidableEq

/-- What is noted of an operation. -/
def noteOf (b : Backend) : BackendOp → Note
  | .call call id =>
      match ((b.resource id).select (Bench.request call)).final? with
      | some final => .accepted id final
      | none => .nothing
  | .clear => .cleared
  | _ => .nothing

/-- What is noted when a timer of the resource runs out. -/
def noteOfTimer (b : Backend) (id : String) : Note :=
  match (b.resource id).parked with
  | some condition => .landed id condition
  | none => .nothing

end Backend

/-- The operation lands what is parked, whatever the time. -/
def BackendOp.Completes : BackendOp → Prop
  | .complete _ | .completeAll => True
  | _ => False

namespace Backend

/-- A running timer runs out. -/
def runOut (b : Backend) (timer : Completion) : Backend :=
  ({ b with timers := b.timers.erase timer }.complete timer.id).2

/-- What may happen at a backend that is left to its timers.  The clock does not pass a timer that
is still running; what else happens at an instant comes before or after the timers of that instant.
-/
inductive Timed.Step : Timed → Note → Timed → Prop where
  | operate {s : Timed} (op : BackendOp) (unforced : ¬ op.Completes) :
      Step s (s.backend.noteOf op) ⟨s.now, (s.backend.carryOut s.now op).2⟩
  | runOut {s : Timed} {timer : Completion} (running : timer ∈ s.backend.timers)
      (due : timer.due ≤ s.now) :
      Step s (s.backend.noteOfTimer timer.id) ⟨s.now, s.backend.runOut timer⟩
  | pass {s : Timed} (ms : Nat) (unskipped : ∀ timer ∈ s.backend.timers, s.now + ms ≤ timer.due) :
      Step s .nothing ⟨s.now + ms, s.backend⟩

/-- The history of a backend whose accepted calls land after `delay`, newest first. -/
inductive Timed.Course (delay : Nat) : List (Nat × Note) → Timed → Prop where
  | opened : Course delay [] ⟨0, { completionDelay := some delay }⟩
  | more {history : List (Nat × Note)} {s s' : Timed} {note : Note}
      (course : Course delay history s) (step : Timed.Step s note s') :
      Course delay ((s.now, note) :: history) s'

variable {b : Backend} {id other : String} {delay now : Nat}

/-! ## What one step does -/

theorem timers_receive (delayed : b.completionDelay = some delay) (now : Nat) (id : String)
    (request : Request) :
    (b.receive now id request).2.timers =
      if ((b.resource id).select request).isAsync then b.timers ++ [⟨now + delay, id⟩]
      else b.timers := by
  have same : (b.set id ((b.resource id).receive request).2).completionDelay = some delay := delayed
  simp only [receive, same]
  split <;> rfl

theorem completionDelay_receive (b : Backend) (now : Nat) (id : String) (request : Request) :
    (b.receive now id request).2.completionDelay = b.completionDelay := by
  simp only [receive]
  split
  · split <;> rfl
  · rfl

theorem carryOut_call (b : Backend) (now : Nat) (call : Call) (id : String) :
    (b.carryOut now (.call call id)).2 = (b.receive now id (Bench.request call)).2 := by
  cases call <;> rfl

/-- What an operation leaves of the timers and of what is parked. -/
inductive Leaves (delay now : Nat) (b : Backend) : Note → Backend → Prop where
  | accepted {b' : Backend} {id : String} {final : Condition}
      (parks : (b'.resource id).parked = some final)
      (others : ∀ other ≠ id, (b'.resource other).parked = (b.resource other).parked)
      (sets : b'.timers = b.timers ++ [⟨now + delay, id⟩]) :
      Leaves delay now b (.accepted id final) b'
  | cleared {b' : Backend} (empty : ∀ id, (b'.resource id).parked = none)
      (timers : b'.timers = b.timers) : Leaves delay now b .cleared b'
  | nothing {b' : Backend} (same : ∀ id, (b'.resource id).parked = (b.resource id).parked)
      (timers : b'.timers = b.timers) : Leaves delay now b .nothing b'

theorem Leaves.timers_cases {b' : Backend} {note : Note} (leaves : Leaves delay now b note b')
    {timer : Completion} (running : timer ∈ b'.timers) :
    timer ∈ b.timers ∨ ∃ final, note = .accepted timer.id final ∧ timer.due = now + delay := by
  cases leaves with
  | cleared _ timers | nothing _ timers => exact .inl (timers ▸ running)
  | @accepted _ id final _ _ sets =>
      refine (List.mem_append.mp (sets ▸ running)).imp_right fun new => ?_
      rw [List.mem_singleton.mp new]
      exact ⟨final, rfl, rfl⟩

theorem parked_set (b : Backend) (id other : String) (r : Resource) :
    ((b.set id r).resource other).parked =
      if other = id then r.parked else (b.resource other).parked := by
  split
  case isTrue own => rw [own, resource_set]
  case isFalse ne => rw [b.resource_set_of_ne (Ne.symm ne)]

theorem carryOut_leaves (delayed : b.completionDelay = some delay) (now : Nat) {op : BackendOp}
    (unforced : ¬ op.Completes) :
    Leaves delay now b (b.noteOf op) (b.carryOut now op).2 ∧
      (b.carryOut now op).2.completionDelay = some delay := by
  cases op with
  | call call id =>
      rw [carryOut_call]
      refine ⟨?_, (b.completionDelay_receive now id _).trans delayed⟩
      have timers := timers_receive delayed now id (Bench.request call)
      have parked (other : String) := congrArg Resource.parked
        (b.resource_receive now id other (Bench.request call))
      simp only [parked_set, Resource.parked_receive, Reaction.isAsync_eq] at timers parked
      rw [noteOf]
      cases final : ((b.resource id).select (Bench.request call)).final? with
      | none =>
          rw [final] at timers parked
          refine .nothing (fun other => ?_) timers
          rw [parked other]
          split
          case isTrue own => rw [own]; rfl
          case isFalse => rfl
      | some condition =>
          rw [final] at timers parked
          refine .accepted ?_ (fun other ne => ?_) timers
          · rw [parked id, if_pos rfl]
            rfl
          · rw [parked other, if_neg ne]
  | behave id behaviour =>
      refine ⟨.nothing (fun other => ?_) rfl, delayed⟩
      rw [carryOut, addBehaviour, parked_set]
      split
      case isTrue own => rw [own]
      case isFalse => rfl
  | clearBehaviours id =>
      rw [carryOut, clearBehaviours]
      cases found : b.resources[id]? with
      | none => exact ⟨.nothing (fun _ => rfl) rfl, delayed⟩
      | some r =>
          refine ⟨.nothing (fun other => ?_) rfl, delayed⟩
          rw [parked_set]
          split
          case isTrue own =>
            rw [own, resource, found]
            rfl
          case isFalse => rfl
  | clear => exact ⟨.cleared (fun _ => rfl) rfl, delayed⟩
  | complete | completeAll => exact absurd trivial unforced
  | inspect => exact ⟨.nothing (fun _ => rfl) rfl, delayed⟩

theorem runOut_parked (b : Backend) (timer : Completion) (id : String) :
    ((b.runOut timer).resource id).parked =
      if id = timer.id then none else (b.resource id).parked := by
  rw [runOut]
  split
  case isTrue own =>
    rw [own, resource_complete]
    exact Resource.parked_complete _
  case isFalse ne =>
    rw [resource_complete_of_ne _ (Ne.symm ne)]
    rfl

theorem complete_snd (b : Backend) (id : String) :
    (b.complete id).2.timers = b.timers ∧
      (b.complete id).2.completionDelay = b.completionDelay := by
  rw [complete]
  split <;> exact ⟨rfl, rfl⟩

/-- The note is of something that takes the place of what is parked for the resource. -/
def Note.Replaces (id : String) : Note → Prop
  | .accepted other _ => other = id
  | .cleared => True
  | _ => False

/-- The note is of something that leaves alone what is parked for the resource. -/
def Note.Spares (id : String) (note : Note) : Prop :=
  ¬ note.Replaces id ∧ ∀ condition, note ≠ .landed id condition

namespace Timed

variable {s s' : Timed} {note : Note} {final : Condition} {due : Nat}
variable {history : List (Nat × Note)}

/-- A condition is parked for the resource, and a timer for it runs out at the instant `due`. -/
def Awaits (s : Timed) (id : String) (final : Condition) (due : Nat) : Prop :=
  (s.backend.resource id).parked = some final ∧ ⟨due, id⟩ ∈ s.backend.timers

/-- What a step brings for one resource. -/
inductive Brings (delay : Nat) (id : String) (s : Timed) : Note → Timed → Prop where
  | accepted {s' : Timed} {final : Condition} (awaits : s'.Awaits id final (s.now + delay)) :
      Brings delay id s (.accepted id final) s'
  | cleared {s' : Timed} (empty : (s'.backend.resource id).parked = none) :
      Brings delay id s .cleared s'
  | landed {s' : Timed} {final : Condition} {timer : Completion}
      (was : (s.backend.resource id).parked = some final)
      (empty : (s'.backend.resource id).parked = none)
      (running : timer ∈ s.backend.timers) (own : timer.id = id) (due : timer.due ≤ s.now) :
      Brings delay id s (.landed id final) s'
  | spared {note : Note} {s' : Timed} (spares : note.Spares id)
      (same : (s'.backend.resource id).parked = (s.backend.resource id).parked)
      (timers : (s.backend.resource id).parked ≠ none →
        ∀ timer ∈ s.backend.timers, timer.id = id → timer ∈ s'.backend.timers) :
      Brings delay id s note s'

theorem spares_nothing (id : String) : Note.nothing.Spares id :=
  ⟨fun replaced => replaced, fun _ => Note.noConfusion⟩

theorem noteOfTimer_spares {other : String} (ne : id ≠ other) :
    (b.noteOfTimer other).Spares id := by
  rw [noteOfTimer]
  cases (b.resource other).parked with
  | none => exact spares_nothing id
  | some found =>
      refine ⟨fun replaced => replaced, fun condition same => ne ?_⟩
      cases same
      rfl

theorem Step.brings (step : Step s note s') (delayed : s.backend.completionDelay = some delay)
    (id : String) : s.Brings delay id note s' := by
  cases step with
  | pass => exact .spared (spares_nothing id) rfl fun _ _ running _ => running
  | operate op unforced =>
      obtain ⟨leaves, _⟩ := carryOut_leaves delayed s.now unforced
      generalize s.backend.noteOf op = note at leaves ⊢
      cases leaves with
      | nothing same timers =>
          exact .spared (spares_nothing id) (same id) fun _ _ running _ => timers ▸ running
      | cleared empty => exact .cleared (empty id)
      | @accepted _ other final parks others sets =>
          by_cases own : id = other
          · rw [own]
            refine .accepted ⟨parks, ?_⟩
            exact sets ▸ List.mem_append_right _ List.mem_cons_self
          · refine .spared ⟨Ne.symm own, fun _ => Note.noConfusion⟩ (others id own) ?_
            exact fun _ _ running _ => sets ▸ List.mem_append_left _ running
  | @runOut timer running due =>
      have left := s.backend.runOut_parked timer id
      by_cases own : id = timer.id
      · rw [if_pos own] at left
        rw [noteOfTimer]
        cases parked : (s.backend.resource timer.id).parked with
        | none =>
            rw [← own] at parked
            exact .spared (spares_nothing id) (left.trans parked.symm) fun filled =>
              absurd parked filled
        | some final =>
            rw [← own] at parked ⊢
            exact .landed parked left running own.symm due
      · rw [if_neg own] at left
        refine .spared (noteOfTimer_spares own) left fun _ other running ownTimer => ?_
        rw [Backend.runOut, (complete_snd _ _).1]
        have ne : other ≠ timer := fun same =>
          own (ownTimer.symm.trans (congrArg Completion.id same))
        exact (List.mem_erase_of_ne ne).mpr running

/-- A landing that is noted is of a condition that was entered then. -/
theorem Step.enters (step : Step s (.landed id final) s') :
    (s'.backend.resource id).conditions = (s.backend.resource id).conditions ++ [final] := by
  generalize noted : Note.landed id final = note at step
  cases step with
  | pass => cases noted
  | operate op =>
      rw [noteOf.eq_def] at noted
      split at noted
      · split at noted <;> cases noted
      · cases noted
      · cases noted
  | @runOut timer =>
      rw [noteOfTimer] at noted
      cases parked : (s.backend.resource timer.id).parked with
      | none =>
          rw [parked] at noted
          cases noted
      | some condition =>
          rw [parked] at noted
          cases noted
          have entered : ((s.backend.resource timer.id).complete.2).conditions =
              (s.backend.resource timer.id).conditions ++ [final] := by
            rw [Resource.complete, parked]
            rfl
          rw [Backend.runOut, resource_complete]
          exact entered

/-- Every running timer is of an accepted call, and has not been skipped. -/
structure Ticking (delay : Nat) (history : List (Nat × Note)) (s : Timed) : Prop where
  delayed : s.backend.completionDelay = some delay
  unskipped : ∀ timer ∈ s.backend.timers, s.now ≤ timer.due
  called : ∀ timer ∈ s.backend.timers,
    ∃ made final, (made, .accepted timer.id final) ∈ history ∧ timer.due = made + delay

theorem Step.ticking (step : Step s note s') (ticking : s.Ticking delay history) :
    s'.Ticking delay ((s.now, note) :: history) := by
  have earlier {timer : Completion} (running : timer ∈ s.backend.timers) :
      ∃ made final, (made, .accepted timer.id final) ∈ (s.now, note) :: history ∧
        timer.due = made + delay := by
    obtain ⟨made, final, noted, due⟩ := ticking.called timer running
    exact ⟨made, final, List.mem_cons_of_mem _ noted, due⟩
  cases step with
  | pass ms unskipped => exact ⟨ticking.delayed, unskipped, fun _ => earlier⟩
  | @runOut timer running due =>
      have sub {other : Completion} (left : other ∈ (s.backend.runOut timer).timers) :
          other ∈ s.backend.timers := by
        rw [Backend.runOut, (complete_snd _ _).1] at left
        exact List.mem_of_mem_erase left
      refine ⟨?_, fun _ left => ticking.unskipped _ (sub left), fun _ left => earlier (sub left)⟩
      rw [Backend.runOut, (complete_snd _ _).2]
      exact ticking.delayed
  | operate op unforced =>
      obtain ⟨leaves, delayed⟩ := carryOut_leaves ticking.delayed s.now unforced
      refine ⟨delayed, fun timer running => ?_, fun timer running => ?_⟩ <;>
        obtain old | ⟨final, noted, due⟩ := leaves.timers_cases running
      · exact ticking.unskipped timer old
      · exact due ▸ Nat.le_add_right _ _
      · exact earlier old
      · exact ⟨s.now, final, noted ▸ List.mem_cons_self, due⟩

theorem Step.now_le (step : Step s note s') : s.now ≤ s'.now := by
  cases step with
  | operate | runOut => exact Nat.le_refl _
  | pass => exact Nat.le_add_right _ _

/-! ## Histories -/

variable {since before : List (Nat × Note)} {made instant : Nat}

theorem Course.ticking (course : Course delay history s) : s.Ticking delay history := by
  induction course with
  | opened => exact ⟨rfl, List.forall_mem_nil _, List.forall_mem_nil _⟩
  | more _ step ih => exact step.ticking ih

theorem Course.past (course : Course delay history s) : ∀ entry ∈ history, entry.1 ≤ s.now := by
  induction course with
  | opened => exact List.forall_mem_nil _
  | more _ step ih =>
      refine List.forall_mem_cons.mpr ⟨step.now_le, fun entry noted => ?_⟩
      exact Nat.le_trans (ih entry noted) step.now_le

theorem Course.exists_step (course : Course delay ((instant, note) :: history) s') :
    ∃ s, s.now = instant ∧ Course delay history s ∧ Step s note s' := by
  cases course with
  | more course step => exact ⟨_, rfl, course, step⟩

theorem Course.exists_earlier (course : Course delay (since ++ before) s) :
    ∃ s, Course delay before s := by
  induction since generalizing s with
  | nil => exact ⟨s, course⟩
  | cons entry since ih =>
      obtain ⟨instant, note⟩ := entry
      obtain ⟨_, _, course, _⟩ := Course.exists_step course
      exact ih course

/-- The latest call on the resource was made at the instant `made`; nothing has taken its place
since, and it has not landed. -/
def LatestCall (history : List (Nat × Note)) (id : String) (made : Nat) (final : Condition) :
    Prop :=
  ∃ since before, history = since ++ (made, .accepted id final) :: before ∧
    ∀ entry ∈ since, entry.2.Spares id

/-- What is parked was parked by the latest call on the resource, whose timer is still running. -/
theorem Course.awaits (course : Course delay history s)
    (parked : (s.backend.resource id).parked = some final) :
    ∃ made, LatestCall history id made final ∧ s.Awaits id final (made + delay) := by
  -- By induction on the history: its newest step either parked the condition or left it parked.
  induction course generalizing final with
  | opened => cases parked
  | @more history s s' note course step ih =>
      cases step.brings course.ticking.delayed id with
      | accepted awaits =>
          cases Option.some.inj (awaits.1.symm.trans parked)
          exact ⟨s.now, ⟨[], history, rfl, List.forall_mem_nil _⟩, awaits⟩
      | cleared empty | landed _ empty => cases empty.symm.trans parked
      | spared spares same timers =>
          have was := same.symm.trans parked
          obtain ⟨made, ⟨since, before, rfl, spared⟩, _, running⟩ := ih was
          refine ⟨made, ⟨(s.now, note) :: since, before, rfl, ?_⟩, parked, ?_⟩
          · exact List.forall_mem_cons.mpr ⟨spares, spared⟩
          · exact timers (was ▸ Option.some_ne_none _) _ running rfl

/-- After a call was accepted, and until something takes its place, it waits for its timer or has
landed. -/
theorem Course.awaits_or_landed
    (course : Course delay (since ++ (made, .accepted id final) :: before) s)
    (standing : ∀ entry ∈ since, ¬ entry.2.Replaces id) :
    s.Awaits id final (made + delay) ∨
      ∃ instant ≤ made + delay, (instant, .landed id final) ∈ since := by
  induction since generalizing s with
  | nil =>
      obtain ⟨s, rfl, course, step⟩ := Course.exists_step course
      cases step.brings course.ticking.delayed id with
      | accepted awaits => exact .inl awaits
      | spared spares => exact absurd rfl spares.1
  | cons entry since ih =>
      obtain ⟨instant, note⟩ := entry
      obtain ⟨s, rfl, course, step⟩ := Course.exists_step course
      have standing := List.forall_mem_cons.mp standing
      obtain awaits | ⟨instant, due, landed⟩ := ih course standing.2
      · have soon : s.now ≤ made + delay := course.ticking.unskipped _ awaits.2
        cases step.brings course.ticking.delayed id with
        | accepted => exact absurd rfl standing.1
        | cleared => exact absurd trivial standing.1
        | landed was =>
            cases Option.some.inj (was.symm.trans awaits.1)
            exact .inr ⟨s.now, soon, List.mem_cons_self⟩
        | spared _ same timers =>
            have running := timers (awaits.1 ▸ Option.some_ne_none _) _ awaits.2 rfl
            exact .inl ⟨same.trans awaits.1, running⟩
      · exact .inr ⟨instant, due, List.mem_cons_of_mem _ landed⟩

/-- What lands was parked by the latest call on the resource, and lands with the timer of that call
or of an earlier one on the same resource. -/
theorem Course.landed (course : Course delay ((instant, .landed id final) :: before) s) :
    ∃ between made earlier, before = between ++ (made, .accepted id final) :: earlier ∧
      (∀ entry ∈ between, entry.2.Spares id) ∧ made ≤ instant ∧ instant ≤ made + delay ∧
      (instant = made + delay ∨
        ∃ stale ended, (stale, .accepted id ended) ∈ earlier ∧ instant = stale + delay) := by
  obtain ⟨s, rfl, past, step⟩ := Course.exists_step course
  cases step.brings past.ticking.delayed id with
  | spared spares => exact absurd rfl (spares.2 final)
  | @landed _ _ timer was _ running own due =>
      subst own
      obtain ⟨made, ⟨between, earlier, rfl, spared⟩, _, waits⟩ := past.awaits was
      obtain ⟨stale, ended, noted, set⟩ := past.ticking.called timer running
      have ran : s.now = stale + delay :=
        set ▸ Nat.le_antisymm (past.ticking.unskipped timer running) due
      refine ⟨between, made, earlier, rfl, spared, ?_, past.ticking.unskipped _ waits, ?_⟩
      · exact past.past (made, .accepted timer.id final)
          (List.mem_append_right _ List.mem_cons_self)
      -- A timer of the resource is of its latest call or of an earlier one: no other is made since.
      by_cases own : stale = made
      · exact .inl (own ▸ ran)
      · refine .inr ⟨stale, ended, ?_, ran⟩
        obtain later | calls := List.mem_append.mp noted
        · exact absurd rfl (spared _ later).1
        · obtain same | earlier := List.mem_cons.mp calls
          · exact absurd (congrArg Prod.fst same) own
          · exact earlier

/-- In a backend whose accepted calls land after `delay` and that nobody completes by hand: whatever
lands was parked by the latest call on the resource, at the end of that call's delay or, before
that, at the end of the delay of an earlier call on the resource; and what an accepted call parked
has landed once its delay is over, unless a later call or a clearing has taken its place. -/
theorem lands_with_first_timer (course : Course delay history s) :
    (∀ since before id final instant, history = since ++ (instant, .landed id final) :: before →
      ∃ between made earlier, before = between ++ (made, .accepted id final) :: earlier ∧
        (∀ entry ∈ between, entry.2.Spares id) ∧ made ≤ instant ∧ instant ≤ made + delay ∧
        (instant = made + delay ∨
          ∃ stale ended, (stale, .accepted id ended) ∈ earlier ∧ instant = stale + delay)) ∧
    ∀ since before id final made, history = since ++ (made, .accepted id final) :: before →
      (∀ entry ∈ since, ¬ entry.2.Replaces id) →
      s.now ≤ made + delay ∨ ∃ instant ≤ made + delay, (instant, .landed id final) ∈ since := by
  refine ⟨fun since before id final instant split => ?_,
    fun since before id final made split standing => ?_⟩
  · subst split
    obtain ⟨_, course⟩ := course.exists_earlier
    exact course.landed
  · subst split
    exact (course.awaits_or_landed standing).imp_left fun awaits =>
      course.ticking.unskipped _ awaits.2

/-- A delete is accepted while a create is under way, and the timer of the create runs out. -/
def overlap : List (Nat × Note) :=
  [(100, .landed "vm-1" .missing), (40, .nothing), (40, .accepted "vm-1" .missing), (0, .nothing),
    (0, .accepted "vm-1" .ready)]

theorem course_overlap :
    ∃ s, Course 100 overlap s ∧ s.now = 100 ∧
      (s.backend.resource "vm-1").conditions = [.inProgress, .deleting, .missing] := by
  have start : Course 100 [] ⟨0, _⟩ := .opened
  have created := start.more (.operate (.call .create "vm-1") id)
  have waited := created.more (.pass 40 (by decide))
  have deleted := waited.more (.operate (.call .delete "vm-1") id)
  have elapsed := deleted.more (.pass 60 (by decide))
  have ran := elapsed.more (.runOut (show (⟨100, "vm-1"⟩ : Completion) ∈ _ by decide) (by decide))
  exact ⟨_, ran, rfl, rfl⟩

/-- The delete lands with the timer of the create. -/
theorem lands_with_first_timer_of_overlap :
    ∃ s, Course 100 overlap s ∧
      ∃ between made earlier,
        overlap.tail = between ++ (made, .accepted "vm-1" .missing) :: earlier ∧
        (∀ entry ∈ between, entry.2.Spares "vm-1") ∧ made ≤ 100 ∧ 100 ≤ made + 100 ∧
        (100 = made + 100 ∨
          ∃ stale ended, (stale, .accepted "vm-1" ended) ∈ earlier ∧ 100 = stale + 100) := by
  obtain ⟨s, course, _⟩ := course_overlap
  exact ⟨s, course, (lands_with_first_timer course).1 [] overlap.tail "vm-1" .missing 100 rfl⟩

/-- What the delete at 40 parked is recorded at 100, although its own delay lasts until 140. -/
theorem lands_early_of_overlap :
    ∃ s, Course 100 ((100, .landed "vm-1" .missing) :: overlap.tail) s ∧
      LatestCall overlap.tail "vm-1" 40 .missing ∧ 100 < 40 + 100 ∧
      (s.backend.resource "vm-1").conditions = [.inProgress, .deleting, .missing] := by
  obtain ⟨s, course, _, conditions⟩ := course_overlap
  refine ⟨s, course, ⟨[(40, .nothing)], _, rfl, ?_⟩, by decide, conditions⟩
  exact List.forall_mem_singleton.mpr (spares_nothing "vm-1")

/-! ## Sites take such courses -/

theorem diff_filter (timers : List Completion) (p : Completion → Bool) :
    timers.diff (timers.filter p) = timers.filter (not ∘ p) := by
  induction timers with
  | nil => rfl
  | cons timer timers ih =>
      cases due : p timer with
      | true =>
          rw [List.filter_cons_of_pos due, List.diff_cons, List.erase_cons_head, ih,
            List.filter_cons_of_neg (by simp [due])]
      | false =>
          have absent : timer ∉ timers.filter p := fun found => by
            simp [due] at found
          rw [List.filter_cons_of_neg (by simp [due]), List.cons_diff_of_not_mem absent, ih,
            List.filter_cons_of_pos (by simp [due])]

theorem complete_withTimers (b : Backend) (timers : List Completion) (id : String) :
    ({ b with timers }.complete id).2 = { (b.complete id).2 with timers } := by
  simp only [complete]
  split <;> rfl

/-- Timers that are due run out one after the other, each at its instant. -/
theorem Course.runOutAll {target : Nat} {due later : List Completion}
    (course : Course delay history s) (ahead : s.now ≤ target)
    (running : s.backend.timers.Perm (due ++ later))
    (ordered : due.Pairwise fun t u => t.due ≤ u.due) (timely : ∀ timer ∈ due, timer.due ≤ target)
    (after : ∀ timer ∈ later, target < timer.due) :
    ∃ since, Course delay (since ++ history)
      ⟨target, due.foldl (fun b timer => (b.complete timer.id).2)
        { s.backend with timers := s.backend.timers.diff due }⟩ := by
  -- The clock goes to the first of the timers, which runs out there; the others come after.
  induction due generalizing s history with
  | nil =>
      have pass := Step.pass (s := s) (target - s.now) fun timer runs => by
        rw [Nat.add_sub_cancel' ahead]
        exact Nat.le_of_lt (after timer (running.mem_iff.mp runs))
      rw [Nat.add_sub_cancel' ahead] at pass
      exact ⟨[(s.now, .nothing)], course.more pass⟩
  | cons timer due ih =>
      have runs : timer ∈ s.backend.timers := running.mem_iff.mpr List.mem_cons_self
      have first := List.pairwise_cons.mp ordered
      have inTime := List.forall_mem_cons.mp timely
      have soon : s.now ≤ timer.due := course.ticking.unskipped timer runs
      have pass := Step.pass (s := s) (timer.due - s.now) fun other waits => by
        rw [Nat.add_sub_cancel' soon]
        obtain same | waits := List.mem_cons.mp (running.mem_iff.mp waits)
        · exact same ▸ Nat.le_refl _
        obtain due | later := List.mem_append.mp waits
        · exact first.1 other due
        · exact Nat.le_trans inTime.1 (Nat.le_of_lt (after other later))
      rw [Nat.add_sub_cancel' soon] at pass
      have ran := Step.runOut (s := ⟨timer.due, s.backend⟩) runs (Nat.le_refl _)
      have left : (s.backend.runOut timer).timers = s.backend.timers.erase timer :=
        (complete_snd _ _).1
      have rest := running.erase timer
      rw [List.cons_append, List.erase_cons_head] at rest
      obtain ⟨since, course⟩ := ih ((course.more pass).more ran) inTime.1 (left ▸ rest) first.2
        inTime.2
      refine ⟨since ++ [(timer.due, s.backend.noteOfTimer timer.id), (s.now, .nothing)], ?_⟩
      rw [List.append_assoc, List.foldl_cons, List.diff_cons, complete_withTimers]
      rw [left, Backend.runOut, complete_withTimers] at course
      exact course

theorem pairwise_mergeSort_due (timers : List Completion) :
    (timers.mergeSort fun t u => t.due ≤ u.due).Pairwise fun t u => t.due ≤ u.due := by
  have trans (t u v : Completion) (first : decide (t.due ≤ u.due) = true)
      (next : decide (u.due ≤ v.due) = true) : decide (t.due ≤ v.due) = true :=
    decide_eq_true (Nat.le_trans (of_decide_eq_true first) (of_decide_eq_true next))
  have total (t u : Completion) : (decide (t.due ≤ u.due) || decide (u.due ≤ t.due)) = true := by
    simpa using Nat.le_total t.due u.due
  have ordered := List.pairwise_mergeSort trans total timers
  exact ordered.imp of_decide_eq_true

/-- The timers that are due by `target` run out in order, and the others are left. -/
theorem exists_order_of_fire (b : Backend) (target : Nat) :
    ∃ due, b.timers.Perm (due ++ b.timers.diff due) ∧
      (due.Pairwise fun t u => t.due ≤ u.due) ∧ (∀ timer ∈ due, timer.due ≤ target) ∧
      (∀ timer ∈ b.timers.diff due, target < timer.due) ∧
      b.fire target = due.foldl (fun b timer => (b.complete timer.id).2)
        { b with timers := b.timers.diff due } := by
  have ordered := pairwise_mergeSort_due (b.timers.filter fun timer => timer.due ≤ target)
  have sorted := List.mergeSort_perm (b.timers.filter fun timer => timer.due ≤ target)
    fun t u => t.due ≤ u.due
  rw [fire, List.partition_eq_filter_filter]
  simp only
  generalize List.mergeSort _ _ = due at ordered sorted ⊢
  have left : b.timers.diff due = b.timers.filter (not ∘ fun timer => timer.due ≤ target) :=
    (sorted.diff_left _).trans (diff_filter _ _)
  refine ⟨due, ?_, ordered, fun timer found => ?_, fun timer found => ?_, by rw [left]⟩
  · rw [left]
    exact (List.filter_append_perm _ _).symm.trans (sorted.symm.append_right _)
  · simpa using (List.mem_filter.mp (sorted.mem_iff.mp found)).2
  · rw [left] at found
    simpa using (List.mem_filter.mp found).2

/-- To let the clock move on is to let the timers run out that are due by then. -/
theorem Course.fire {target : Nat} (course : Course delay history s) (ahead : s.now ≤ target) :
    ∃ since, Course delay (since ++ history) ⟨target, s.backend.fire target⟩ := by
  obtain ⟨due, running, ordered, timely, after, fired⟩ := exists_order_of_fire s.backend target
  rw [fired]
  exact course.runOutAll ahead running ordered timely after

/-- The backend of a site and the clock there. -/
def ofSite (site : Site) : Timed := ⟨site.clock, site.backend⟩

theorem Course.advanceTo {site : Site} {target : Nat} (course : Course delay history (ofSite site))
    (ahead : site.clock ≤ target) :
    ∃ since, Course delay (since ++ history) (ofSite (site.advanceTo target)) :=
  course.fire ahead

/-- An operation on the backend of a site that does not complete anything by hand. -/
theorem Course.operateAt {site : Site} (course : Course delay history (ofSite site))
    {op : BackendOp} (unforced : ¬ op.Completes) :
    ∃ since, Course delay (since ++ history) (ofSite (site.operate op).2) := by
  -- First the time passes that the operation takes, then it is carried out, and what is due fires.
  obtain ⟨first, course⟩ := course.advanceTo (Nat.le_add_right _ (site.backend.duration op))
  obtain ⟨last, course⟩ := (course.more (.operate op unforced)).fire (Nat.le_refl _)
  rw [← List.cons_append, ← List.append_assoc] at course
  exact ⟨_, course⟩

end Timed

end Backend

end Steward
