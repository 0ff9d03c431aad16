import Steward.Proofs.Calls
import Steward.Proofs.Chronicle
import Steward.Proofs.Lasting
import Steward.Proofs.Staleness

/-!
# The operation that is written down

A status names the operation that was issued last, and the engine decides by it whether there is
anything to create, and whether a delete is under way.  What was really issued is kept in the
history of a run, so the two can be compared.  As long as the status is the engine's own, and the
record carries its finalizer, the stored operation is the last one that was issued by a reconcile
which returned without a fault: one that is cut short writes down nothing, and one that issued
nothing leaves the operation as it was.  A release writes down nothing either, so all this ends
where the engine takes its finalizer off.
-/

namespace Steward

open Deed Controller Scene

variable {σ : Type} {c : Controller σ} {key : Key}

/-! ## The operations that were issued -/

/-- The operation that a call carries out; a probe carries out none. -/
def Mutation.ofCall? : Call → Option Mutation
  | .create => some .create
  | .update => some .update
  | .delete => some .delete
  | .verify => none

namespace Deed

def mutation? : Deed σ → Option Mutation
  | .issued call _ _ => Mutation.ofCall? call
  | _ => none

/-- The last operation that was issued. -/
def lastMutation (deeds : List (Deed σ)) : Option Mutation := deeds.findSome? mutation?

theorem lastMutation_cons (deed : Deed σ) (deeds : List (Deed σ)) :
    lastMutation (deed :: deeds) = deed.mutation?.or (lastMutation deeds) := by
  rw [lastMutation, lastMutation, List.findSome?_cons]
  cases deed.mutation? <;> rfl

end Deed

/-- The last operation whose call has ended. -/
def lastEnded (ended : List Ended) : Option Mutation :=
  ended.findSome? fun e => Mutation.ofCall? e.1

theorem lastEnded_cons (e : Ended) (ended : List Ended) :
    lastEnded (e :: ended) = (Mutation.ofCall? e.1).or (lastEnded ended) := by
  rw [lastEnded, lastEnded, List.findSome?_cons]
  cases Mutation.ofCall? e.1 <;> rfl

/-- Probes carry out nothing. -/
theorem lastEnded_of_probes {ended : List Ended} (probes : ∀ e ∈ ended, e.1 = .verify) :
    lastEnded ended = none := by
  refine List.findSome?_eq_none_iff.mpr fun e done => ?_
  rw [probes e done]
  rfl

theorem DeletionProgress.operation_of_transition? {progress : DeletionProgress} {t : Transition}
    (leads : progress.transition? = some t) : t.operation = some .delete := by
  cases progress <;> cases leads <;> rfl

/-- A status that is concluded names the operation whose call has ended, if one has, and otherwise
the one that it named before. -/
theorem Controller.Concludes.operation {permissions : Permissions} {r : Record σ} {deleting : Bool}
    {ended : List Ended} {t : Transition} (concludes : c.Concludes permissions r deleting ended t) :
    (t.apply r.status).operation = (lastEnded ended).or r.status.operation := by
  rw [operation_apply]
  cases concludes with
  | invalid | waits | probeFailed => rfl
  | denied due => rw [lastEnded_of_probes due.probes]; rfl
  | created due answer =>
      rw [operation_afterApply]
      rfl
  | updated due answer =>
      rw [operation_afterApply]
      rfl
  | settled due verdict =>
      rw [Transition.withPayload, (ofCondition_eq_settle verdict).1]
      rfl
  | deleted due answer progress =>
      rw [DeletionProgress.operation_of_transition? progress]
      rfl
  | polled due answer progress =>
      -- Only a delete that was issued is polled, so to name it once more changes nothing.
      rw [DeletionProgress.operation_of_transition? progress]
      cases due with
      | poll issued =>
          rw [issued]
          rfl

theorem Controller.Resolves.operation {permissions : Permissions} {r : Record σ}
    {deeds : List (Deed σ)} {t : Transition} (resolves : c.Resolves permissions r deeds t) :
    (t.apply r.status).operation = (lastEnded (endings deeds)).or r.status.operation := by
  cases resolves with
  | invalid _ uncalled | waits _ _ _ _ uncalled =>
      rw [operation_apply, uncalled]
      rfl
  | drives _ concludes => exact concludes.operation

/-! ## Before the record was filed -/

/-- A write that changes something for good shows the record. -/
theorem Controller.record?_of_persists {deed : Deed σ} (persists : c.persists deed = true) :
    deed.record?.isSome = true := by
  obtain ⟨_, _, rfl⟩ | ⟨_, _, rfl, _⟩ := persists_cases persists
  · rfl
  · rfl

/-- Where there is no record, and none is filed, there is nothing to be shown or written. -/
theorem View.Turns.of_none [DecidableEq σ] {happening : Happening σ} {w : View σ}
    (turns : Turns key happening ⟨none, none⟩ w) (unborn : happening.bears key = false) :
    w = ⟨none, none⟩ ∧ ∀ deed, happening = .did deed → c.persists deed = false := by
  cases turns with
  | @outside op reply before after held becomes files =>
      refine ⟨?_, fun _ same => nomatch same⟩
      cases after with
      | none => rfl
      | some => cases (files rfl nofun).symm.trans unborn
  | began | returned => exact ⟨rfl, fun _ same => nomatch same⟩
  | found =>
      refine ⟨rfl, ?_⟩
      rintro _ ⟨⟩
      rfl
  | unseen unseen =>
      refine ⟨rfl, ?_⟩
      rintro deed ⟨⟩
      refine Bool.eq_false_iff.mpr fun persists => ?_
      cases (congrArg Option.isSome unseen).symm.trans (record?_of_persists persists)

/-- Nothing but a write of the status changes the status of the stored record. -/
theorem View.Turns.status_eq [DecidableEq σ] {happening : Happening σ} {v w : View σ}
    (turns : Turns key happening v w) (unborn : happening.bears key = false)
    (leaves : ∀ op reply, happening = .outside op reply → LeavesStatus key op)
    (unwritten : ∀ incoming answer,
      happening ≠ .did (.asked (.writeStatus incoming) (.ok answer))) {r : Record σ}
    (found : w.stored = some r) :
    ∃ earlier, v.stored = some earlier ∧ r.status = earlier.status := by
  cases turns with
  | @outside op reply before after held becomes files =>
      obtain rfl : after = some r := found
      cases before with
      | none => cases (files rfl nofun).symm.trans unborn
      | some earlier => exact ⟨earlier, rfl, becomes.status_eq (leaves op reply rfl)⟩
  | began | returned | found | unseen => exact ⟨r, found, rfl⟩
  | @rewritten incoming stored after held based lands =>
      obtain rfl := eq_of_lands lands found
      exact ⟨stored, rfl, rfl⟩
  | restated => exact absurd rfl (unwritten _ _)

/-- A status that is written is the one that is stored, if the record still is. -/
theorem View.Turns.status_written [DecidableEq σ] {incoming answer : Record σ} {v w : View σ}
    (turns : Turns key (.did (.asked (.writeStatus incoming) (.ok answer))) v w) {r : Record σ}
    (found : w.stored = some r) :
    ∃ earlier, v.stored = some earlier ∧ r.status = incoming.status := by
  cases turns with
  | unseen unseen => cases unseen
  | @restated incoming stored after held based lands =>
      obtain rfl := eq_of_lands lands found
      exact ⟨stored, rfl, rfl⟩

namespace Scene

/-- The last operation that was issued by a reconcile which returned without a fault. -/
def lastRecorded : List (Happening σ) → Option Mutation
  | [] => none
  | .returned (.ok _) :: past => (lastMutation (sitting past)).or (lastRecorded past)
  | _ :: past => lastRecorded past

/-- Nothing is known of a record under the key. -/
structure Blank (c : Controller σ) (key : Key) (past : List (Happening σ)) (s : Store σ) :
    Prop where
  unseen : view key past s = ⟨none, none⟩
  silent : ∀ deed ∈ sitting past, c.persists deed = false
  unissued : lastMutation (sitting past) = none
  unrecorded : lastRecorded past = none

variable [DecidableEq σ] {may : Custom σ}
variable {past : List (Happening σ)} {s t : Scene σ} {happening : Happening σ}

theorem Blank.next (blank : Blank c key past s.store) (run : Run c key may past s)
    (step : Step c key may s happening t) (unborn : happening.bears key = false) :
    Blank c key (happening :: past) t.store := by
  have turns := run.turns step
  rw [blank.unseen] at turns
  obtain ⟨unseen, silent⟩ := turns.of_none (c := c) unborn
  cases happening with
  | outside => exact ⟨unseen, blank.silent, blank.unissued, blank.unrecorded⟩
  | began => exact ⟨unseen, List.forall_mem_nil _, rfl, blank.unrecorded⟩
  | returned result =>
      refine ⟨unseen, List.forall_mem_nil _, rfl, ?_⟩
      cases result with
      | error => exact blank.unrecorded
      | ok => rw [lastRecorded, blank.unissued, blank.unrecorded, Option.none_or]
  | did deed =>
      refine ⟨unseen, List.forall_mem_cons.mpr ⟨silent deed rfl, blank.silent⟩, ?_,
        blank.unrecorded⟩
      rw [sitting, lastMutation_cons, blank.unissued, Option.or_none]
      cases deed with
      | asked | ended | reported => rfl
      | issued call id spec =>
          -- A call is made for a record in hand, and there is none.
          obtain ⟨_, held, hand, _⟩ := run.calls step
          cases (congrArg View.held blank.unseen).symm.trans hand

theorem Run.blank (run : Run c key may past s)
    (unfiled : ∀ happening ∈ past, happening.bears key = false) : Blank c key past s.store := by
  induction run with
  | start => exact ⟨rfl, List.forall_mem_nil _, rfl, rfl⟩
  | step run step ih =>
      obtain ⟨unborn, unfiled⟩ := List.forall_mem_cons.mp unfiled
      exact (ih unfiled).next run step unborn

/-- At most one record was filed under the key. -/
def Single (key : Key) (past : List (Happening σ)) : Prop :=
  (past.filter (Happening.bears key)).length ≤ 1

omit [DecidableEq σ] in
theorem Single.tail (single : Single key (happening :: past)) : Single key past :=
  Nat.le_trans ((List.sublist_cons_self _ _).filter _).length_le single

omit [DecidableEq σ] in
/-- Where a record is filed, none was before. -/
theorem Single.unfiled (single : Single key (happening :: past))
    (born : happening.bears key = true) : ∀ earlier ∈ past, earlier.bears key = false := by
  rw [Single, List.filter_cons_of_pos born, List.length_cons, Nat.succ_le_succ_iff,
    Nat.le_zero, List.length_eq_zero_iff, List.filter_eq_nil_iff] at single
  exact fun earlier member => Bool.eq_false_iff.mpr (single earlier member)

/-! ## What the status should name -/

/-- The last operation that was issued in the reconcile under way is the one whose call is under
way, or the last one whose call has ended. -/
theorem Run.lastMutation_eq (run : Run c key may past s) :
    lastMutation (sitting past) =
      (s.engine.underWay.findSome? Mutation.ofCall?).or (lastEnded (endings (sitting past))) := by
  induction run with
  | start => rfl
  | step run step ih =>
      cases step with
      | outside | ask | report => exact ih
      | begin | stop => rfl
      | issue =>
          rw [sitting, lastMutation_cons, ih, Engine.underWay, Engine.underWay,
            List.findSome?_nil, Option.none_or, List.findSome?_singleton]
          rfl
      | finish call ending =>
          rw [Engine.underWay, List.findSome?_singleton] at ih
          exact ih.trans (lastEnded_cons ⟨call, ending⟩ _).symm

/-- The operation that the stored status should name: the last one that was recorded, or, once the
reconcile under way has changed something for good, the last one that it issued. -/
def noted (c : Controller σ) (past : List (Happening σ)) : Option Mutation :=
  if (sitting past).any c.persists then (lastMutation (sitting past)).or (lastRecorded past)
  else lastRecorded past

omit [DecidableEq σ] in
theorem noted_of_silent (silent : ∀ deed ∈ sitting past, c.persists deed = false) :
    noted c past = lastRecorded past := by
  refine if_neg fun persists => ?_
  obtain ⟨deed, done, persists⟩ := List.any_eq_true.mp persists
  cases (silent deed done).symm.trans persists

omit [DecidableEq σ] in
theorem noted_of_persists {deed : Deed σ} (done : deed ∈ sitting past)
    (persists : c.persists deed = true) :
    noted c past = (lastMutation (sitting past)).or (lastRecorded past) :=
  if_pos (List.any_eq_true.mpr ⟨deed, done, persists⟩)

omit [DecidableEq σ] in
/-- A deed that neither changes anything nor issues an operation makes no difference. -/
theorem noted_did {deed : Deed σ} (silent : c.persists deed = false)
    (unissued : deed.mutation? = none) : noted c (.did deed :: past) = noted c past := by
  rw [noted, sitting, List.any_cons, silent, Bool.false_or, lastMutation_cons, unissued,
    Option.none_or]
  rfl

/-! ## What the status names -/

/-- The stored status names what it should, and the record in hand has the same status. -/
structure Marked (c : Controller σ) (key : Key) (past : List (Happening σ)) (s : Store σ) :
    Prop where
  inStep : (view key past s).InStep
  names : ∀ stored, s.records[key]? = some stored → stored.status.operation = noted c past

/-- Where a reconcile returns without a fault, its last operation is named. -/
theorem Marked.returned {outcome : Outcome} (marked : Marked c key past s.store)
    (run : Run c key may past s) (step : Step c key may s (.returned (.ok outcome)) t)
    {stored : Record σ} (found : s.store.records[key]? = some stored) :
    stored.status.operation = (lastMutation (sitting past)).or (lastRecorded past) := by
  by_cases persisted : ∃ deed ∈ sitting past, c.persists deed = true
  · obtain ⟨deed, done, persists⟩ := persisted
    rw [← noted_of_persists done persists]
    exact marked.names stored found
  -- Nothing was written: no operation was issued, or the status named it before.
  have silent : ∀ deed ∈ sitting past, c.persists deed = false := fun deed done =>
    Bool.eq_false_iff.mpr fun persists => persisted ⟨deed, done, persists⟩
  have names := (marked.names stored found).trans (noted_of_silent silent)
  have issued := run.lastMutation_eq
  have account := run.keeps (c.reconcile_accounts key)
  cases step with
  | stop =>
      have unchanged {r : Record σ} {m : Transition} {outcome : Outcome}
          (commits : c.Commits r m (sitting past) outcome)
          (operation : (m.apply r.status).operation =
            (lastEnded (endings (sitting past))).or r.status.operation) :
          stored.status.operation = (lastMutation (sitting past)).or (lastRecorded past) := by
        obtain ⟨same, hand⟩ | ⟨w, _, written⟩ := commits.written
        · rw [same, ← marked.inStep stored r found hand] at operation
          rw [issued, ← names]
          exact operation
        · cases (silent _ written).symm.trans rfl
      cases account with
      | absent read | free _ _ read =>
          rw [read]
          exact names
      | released _ _ _ _ written =>
          obtain ⟨event, older, history⟩ := written
          have persists := silent _ (history ▸ List.mem_cons_of_mem _ List.mem_cons_self)
          cases persists.symm.trans (c.persists_released _ _)
      | deletes _ _ _ concludes commits => exact unchanged commits concludes.operation
      | stays _ _ _ _ resolves commits => exact unchanged commits resolves.operation

/-- In every run a call is issued, and a status written, only before anything was changed for good.
-/
theorem Run.silent_of_issued (run : Run c key may past s) {call : Call} {id : String} {spec : σ}
    (step : Step c key may s (.did (.issued call id spec)) t) :
    ∀ deed ∈ sitting past, c.persists deed = false := by
  have keeps := run.keeps (c.reconcile_reserved key)
  cases step with
  | issue => exact keeps.1.unchanged

theorem Run.silent_of_written (run : Run c key may past s) {incoming : Record σ}
    {answer : (Query.writeStatus incoming).Answer}
    (step : Step c key may s (.did (.asked (.writeStatus incoming) answer)) t) :
    ∀ deed ∈ sitting past, c.persists deed = false := by
  have keeps := run.keeps (c.reconcile_reserved key)
  cases step with
  | ask => exact keeps.1.unchanged

/-- A reconcile that returns with a fault changed nothing for good. -/
theorem Run.silent_of_fault (run : Run c key may past s) {fault : Fault}
    (step : Step c key may s (.returned (.error fault)) t) :
    ∀ deed ∈ sitting past, c.persists deed = false := by
  have keeps := run.keeps (c.reconcile_reserved key)
  cases step with
  | stop => exact Chronicle.unchanged keeps

theorem Run.sitting_of_idle (run : Run c key may past s) (idle : s.engine = .idle) :
    sitting past = [] := by
  induction run with
  | start => rfl
  | step run step ih =>
      cases step with
      | outside => exact ih idle
      | stop => rfl
      | begin | ask | issue | finish | report => cases idle

theorem Run.sitting_of_began (run : Run c key may past s) (step : Step c key may s .began t) :
    sitting past = [] := by
  cases step with
  | begin => exact run.sitting_of_idle rfl

/-- A status that is written names what it should. -/
theorem Marked.written {incoming answer : Record σ} (marked : Marked c key past s.store)
    (run : Run c key may past s)
    (step : Step c key may s (.did (.asked (.writeStatus incoming) (.ok answer))) t)
    {stored : Record σ} (found : t.store.records[key]? = some stored) :
    stored.status.operation =
      noted c (.did (.asked (.writeStatus incoming) (.ok answer)) :: past) := by
  obtain ⟨earlier, before, written⟩ := (run.turns step).status_written found
  obtain ⟨_, _, r, m, standing, concludes, rfl⟩ := run.concludes step
  have names := (marked.names earlier before).trans (noted_of_silent (run.silent_of_written step))
  have issued := run.lastMutation_eq
  rw [marked.inStep earlier r before standing.hand] at names
  rw [written, noted_of_persists List.mem_cons_self rfl, sitting, lastMutation_cons, issued]
  cases step with
  | ask =>
      refine concludes.operation.trans ?_
      rw [names]
      rfl

/-- What the status should name stays the same until something is changed for good, or until the
reconcile returns without a fault. -/
theorem Run.noted_next (run : Run c key may past s) (step : Step c key may s happening t)
    (quiet : ∀ deed, happening = .did deed → c.persists deed = false)
    (unfinished : ∀ outcome, happening ≠ .returned (.ok outcome)) :
    noted c (happening :: past) = noted c past := by
  cases happening with
  | outside => rfl
  | began =>
      have silent : ∀ deed ∈ sitting past, c.persists deed = false := by
        rw [run.sitting_of_began step]
        exact List.forall_mem_nil _
      rw [noted_of_silent silent]
      rfl
  | returned result =>
      cases result with
      | ok outcome => exact absurd rfl (unfinished outcome)
      | error fault =>
          rw [noted_of_silent (run.silent_of_fault step)]
          rfl
  | did deed =>
      have quiet := quiet deed rfl
      cases deed with
      | asked | ended | reported => exact noted_did quiet rfl
      | issued call id spec =>
          -- The call is issued before anything was changed, so it does not count yet.
          have silent := run.silent_of_issued step
          have later : ∀ deed ∈ sitting (.did (.issued call id spec) :: past),
              c.persists deed = false := List.forall_mem_cons.mpr ⟨quiet, silent⟩
          rw [noted_of_silent silent, noted_of_silent later]
          rfl

/-- Every step that files no record, and by which the engine does not let go of one, keeps the
status as it should be. -/
theorem Marked.next (marked : Marked c key past s.store) (run : Run c key may past s)
    (step : Step c key may s happening t) (leaves : ∀ s op, may s op → LeavesStatus key op)
    (unborn : happening.bears key = false) (kept : ¬ c.TakesFinalizer happening) :
    Marked c key (happening :: past) t.store := by
  have turns := run.turns step
  have leaves := step.leavesStatus leaves
  refine ⟨turns.inStep unborn leaves marked.inStep, fun stored found => ?_⟩
  by_cases finished : ∃ outcome, happening = .returned (.ok outcome)
  · obtain ⟨outcome, rfl⟩ := finished
    refine marked.returned run step ?_
    cases step with
    | stop => exact found
  by_cases persisted : ∃ deed, happening = .did deed ∧ c.persists deed = true
  · obtain ⟨deed, rfl, persists⟩ := persisted
    obtain ⟨_, _, rfl⟩ | ⟨_, _, rfl, taken⟩ := persists_cases persists
    · exact marked.written run step found
    · exact absurd taken kept
  -- Neither the stored status nor what it should name is changed.
  have quiet : ∀ deed, happening = .did deed → c.persists deed = false := fun deed same =>
    Bool.eq_false_iff.mpr fun persists => persisted ⟨deed, same, persists⟩
  have unwritten : ∀ incoming answer,
      happening ≠ .did (.asked (.writeStatus incoming) (.ok answer)) :=
    fun _ _ same => nomatch quiet _ same
  obtain ⟨earlier, before, same⟩ := turns.status_eq unborn leaves unwritten found
  rw [same, run.noted_next step quiet fun outcome same => finished ⟨outcome, same⟩]
  exact marked.names earlier before

/-- The record that is filed has an empty status, and nothing was recorded before. -/
theorem Blank.marked (blank : Blank c key past s.store) (run : Run c key may past s)
    (step : Step c key may s happening t) (leaves : ∀ s op, may s op → LeavesStatus key op)
    (born : happening.bears key = true) : Marked c key (happening :: past) t.store := by
  have absent : s.store.records[key]? = none := congrArg View.stored blank.unseen
  cases step with
  | begin | ask | issue | finish | report | stop => cases born
  | outside now op allowed =>
      constructor
      · intro stored held _ hand
        cases (congrArg View.held blank.unseen).symm.trans hand
      · intro stored found
        have becomes := (Store.perform_lawful run.filed now op).becomes key
        rw [absent, found] at becomes
        cases becomes with
        | created own =>
            have unnoted : noted c past = none :=
              (noted_of_silent blank.silent).trans blank.unrecorded
            exact (congrArg Status.operation (leaves _ _ allowed own)).trans unnoted.symm

/-- As long as the engine has not let go of the record, its status names what it should. -/
theorem Run.marked (run : Run c key may past s) (leaves : ∀ s op, may s op → LeavesStatus key op)
    (single : Single key past) (kept : ∀ happening ∈ past, ¬ c.TakesFinalizer happening) :
    Marked c key past s.store := by
  induction run with
  | start =>
      have empty : ∀ stored : Record σ, (∅ : KeyMap (Record σ))[key]? ≠ some stored := by
        intro stored found
        rw [Std.ExtTreeMap.getElem?_empty] at found
        cases found
      exact ⟨fun stored _ found => absurd found (empty stored),
        fun stored found => absurd found (empty stored)⟩
  | @step past s t happening run step ih =>
      obtain ⟨newest, kept⟩ := List.forall_mem_cons.mp kept
      cases born : happening.bears key with
      | true => exact (run.blank (single.unfiled born)).marked run step leaves born
      | false => exact (ih single.tail kept).next run step leaves born newest

end Scene

/-! ## A record that the engine let go of -/

namespace View

variable [DecidableEq σ] {happening : Happening σ} {v w : View σ} {r : Record σ}

/-- A record that is to be deleted stays so. -/
theorem Turns.requested (turns : Turns key happening v w) (unborn : happening.bears key = false)
    (before : ∀ earlier, v.stored = some earlier → earlier.metadata.isDeletionRequested = true)
    (found : w.stored = some r) : r.metadata.isDeletionRequested = true := by
  cases turns with
  | @outside op reply earlier after held becomes files =>
      obtain rfl : after = some r := found
      cases earlier with
      | none => cases (files rfl nofun).symm.trans unborn
      | some earlier =>
          obtain same | ⟨_, requested⟩ := becomes.requested_eq
          · exact same.trans (before earlier rfl)
          · exact requested
  | began | returned | found | unseen => exact before r found
  | @rewritten incoming stored after held based lands
  | @restated incoming stored after held based lands =>
      obtain rfl := eq_of_lands lands found
      exact before stored rfl

/-- The finalizer is on a record that carried it before, or on which it was just put. -/
theorem Turns.guards (turns : Turns key happening v w) (unborn : happening.bears key = false)
    (found : w.stored = some r) (guards : c.Guards r) :
    (∃ earlier, v.stored = some earlier ∧ c.Guards earlier) ∨
    (∃ incoming latest reply, happening = .outside (.update incoming latest) reply ∧
      incoming.key = key ∧ c.Guards incoming) ∨
    ∃ incoming answer, happening = .did (.asked (.writeMetadata incoming) (.ok answer)) ∧
      c.Guards incoming := by
  cases turns with
  | @outside op reply earlier after held becomes files =>
      obtain rfl : after = some r := found
      cases earlier with
      | none => cases (files rfl nofun).symm.trans unborn
      | some earlier =>
          generalize result : some r = after at becomes
          cases becomes with
          | unchanged | respecified | annotated | marked =>
              cases result
              exact .inl ⟨_, rfl, guards⟩
          | dropped => cases result
          | updated own =>
              split at result <;> cases result
              exact .inr (.inl ⟨_, _, reply, rfl, own, guards⟩)
          | statusUpdated =>
              split at result <;> cases result
              exact .inl ⟨earlier, rfl, guards⟩
  | began | returned | found | unseen => exact .inl ⟨r, found, guards⟩
  | @rewritten incoming stored after held based lands =>
      obtain rfl := eq_of_lands lands found
      exact .inr (.inr ⟨incoming, _, rfl, guards⟩)
  | @restated incoming stored after held based lands =>
      obtain rfl := eq_of_lands lands found
      exact .inl ⟨stored, rfl, guards⟩

/-- A record carries the finalizer after a write of its metadata only if it was written so. -/
theorem Turns.guards_written {incoming answer : Record σ}
    (turns : Turns key (.did (.asked (.writeMetadata incoming) (.ok answer))) v w)
    (found : w.stored = some r) (guards : c.Guards r) : c.Guards incoming := by
  cases turns with
  | unseen unseen => cases unseen
  | rewritten based lands =>
      obtain rfl := eq_of_lands lands found
      exact guards

end View

/-- Someone else put the engine's finalizer on the record. -/
def Controller.PutsBack (c : Controller σ) (key : Key) (newer : List (Happening σ)) : Prop :=
  ∃ r latest reply, .outside (.update r latest) reply ∈ newer ∧ r.key = key ∧ c.Guards r

namespace Scene

variable [DecidableEq σ] {may : Custom σ}
variable {past newer older : List (Happening σ)} {s t : Scene σ} {happening taking : Happening σ}

/-- What was shown was filed. -/
theorem Run.born_of_shown (run : Run c key may past s) {deed : Deed σ} {r : Record σ}
    (done : deed ∈ sitting past) (shown : deed.record? = some r) :
    ¬ ∀ happening ∈ past, happening.bears key = false := by
  intro unfiled
  have unheld : inHand (sitting past) = none := congrArg View.held (run.blank unfiled).unseen
  cases (List.findSome?_eq_none_iff.mp unheld deed done).symm.trans shown

/-- A record that was read while it was to be deleted stays so. -/
theorem Run.requested_of_read (run : Run c key may past s) (single : Single key past)
    {first : Record σ} (read : .asked (.read key) (.ok (some first)) ∈ sitting past)
    (requested : first.metadata.isDeletionRequested = true) :
    ∀ stored, s.store.records[key]? = some stored → stored.metadata.isDeletionRequested = true := by
  induction run with
  | start => cases read
  | @step past s t happening run step ih =>
      have turns := run.turns step
      intro stored found
      cases happening with
      | began | returned => cases read
      | outside =>
          refine turns.requested (Bool.eq_false_iff.mpr fun born => ?_) (ih single.tail read) found
          exact run.born_of_shown read rfl (single.unfiled born)
      | did deed =>
          obtain rfl | earlier := List.mem_cons.mp read
          · cases turns.stored_of_read.symm.trans found
            exact requested
          · exact turns.requested rfl (ih single.tail earlier) found

/-- What is known once the engine took its finalizer off: the record is to be deleted, so it gets
the finalizer back from nobody but someone else.  The latest happenings are those since then. -/
structure Freed (c : Controller σ) (key : Key) (newer past : List (Happening σ)) (s : Store σ) :
    Prop where
  filed : ¬ ∀ happening ∈ past, happening.bears key = false
  requested : ∀ stored, s.records[key]? = some stored → stored.metadata.isDeletionRequested = true
  read : ∀ first, sitting past = [.asked (.read key) (.ok (some first))] →
    first.metadata.isDeletionRequested = true
  unguarded : ∀ stored, s.records[key]? = some stored → c.Guards stored → c.PutsBack key newer

theorem Run.freed_of_taken (run : Run c key may past s) (single : Single key past)
    (step : Step c key may s taking t) (taken : c.TakesFinalizer taking) :
    Freed c key [] (taking :: past) t.store := by
  have turns := run.turns step
  unfold Controller.TakesFinalizer at taken
  split at taken
  case h_2 => exact taken.elim
  case h_1 incoming w =>
    obtain ⟨asks, _⟩ := run.asked step
    obtain ⟨held, hand, _, secures | releases⟩ := asks
    · refine absurd ?_ taken
      rw [secures.written]
      exact held.metadata.hasFinalizer_addFinalizer _
    have requested := run.requested_of_read single releases.read releases.requested
    refine ⟨fun unfiled => ?_, fun stored found => turns.requested rfl requested found, ?_, ?_⟩
    · exact run.born_of_shown releases.read rfl (List.forall_mem_cons.mp unfiled).2
    · intro first same
      cases same
    · intro stored found guards
      exact absurd (turns.guards_written found guards) taken

theorem Freed.next (freed : Freed c key newer past s.store) (run : Run c key may past s)
    (single : Single key (happening :: past)) (step : Step c key may s happening t) :
    Freed c key (happening :: newer) (happening :: past) t.store := by
  have turns := run.turns step
  have unborn : happening.bears key = false :=
    Bool.eq_false_iff.mpr fun born => freed.filed (single.unfiled born)
  have requested : ∀ stored, t.store.records[key]? = some stored →
      stored.metadata.isDeletionRequested = true :=
    fun stored found => turns.requested unborn freed.requested found
  refine ⟨fun unfiled => freed.filed (List.forall_mem_cons.mp unfiled).2, requested, ?_, ?_⟩
  · intro first read
    cases happening with
    | began | returned => cases read
    | outside => exact freed.read first read
    | did deed =>
        obtain ⟨rfl, _⟩ := List.cons.inj read
        exact requested first turns.stored_of_read
  · intro stored found guards
    obtain ⟨earlier, before, guards⟩ | ⟨incoming, latest, reply, rfl, own, guards⟩ |
      ⟨incoming, answer, rfl, guards⟩ := turns.guards unborn found guards
    · obtain ⟨r, latest, reply, put, own, guards⟩ := freed.unguarded earlier before guards
      exact ⟨r, latest, reply, List.mem_cons_of_mem _ put, own, guards⟩
    · exact ⟨incoming, latest, reply, List.mem_cons_self, own, guards⟩
    -- The engine puts it on a record that is to stay, and no other record was read since.
    · obtain ⟨asks, _⟩ := run.asked step
      obtain ⟨held, hand, _, secures | releases⟩ := asks
      · cases secures.stays.symm.trans (freed.read held secures.read)
      · rw [releases.written] at guards
        exact absurd guards
          (Bool.eq_false_iff.mp (held.metadata.hasFinalizer_removeFinalizer _))

/-- A record that the engine let go of does not carry its finalizer, unless someone else put it
back. -/
theorem Run.freed {newer : List (Happening σ)}
    (run : Run c key may (newer ++ taking :: older) s)
    (single : Single key (newer ++ taking :: older)) (taken : c.TakesFinalizer taking) :
    Freed c key newer (newer ++ taking :: older) s.store := by
  induction newer generalizing s with
  | nil =>
      cases run with
      | step run step => exact run.freed_of_taken single.tail step taken
  | cons newest newer ih =>
      cases run with
      | step run step => exact (ih run single.tail).next run single step

/-- Where a step changes the stored operation, it writes down the one that was issued last. -/
theorem Marked.changed (marked : Marked c key past s.store) (run : Run c key may past s)
    (step : Step c key may s happening t) (leaves : ∀ s op, may s op → LeavesStatus key op)
    {stored after : Record σ} (before : s.store.records[key]? = some stored)
    (found : t.store.records[key]? = some after)
    (changed : after.status.operation ≠ stored.status.operation) :
    (∃ incoming answer, happening = .did (.asked (.writeStatus incoming) (.ok answer))) ∧
      ∃ operation, lastMutation (sitting past) = some operation ∧
        after.status.operation = some operation := by
  by_cases writes : ∃ incoming answer,
      happening = .did (.asked (.writeStatus incoming) (.ok answer))
  case neg =>
    obtain ⟨earlier, same, status⟩ := (run.turns step).status_eq (step.bears_eq_false before)
      (step.leavesStatus leaves) (fun incoming answer same => writes ⟨incoming, answer, same⟩) found
    cases before.symm.trans same
    exact absurd (congrArg Status.operation status) changed
  case pos =>
    refine ⟨writes, ?_⟩
    obtain ⟨incoming, answer, rfl⟩ := writes
    have names := marked.written run step found
    rw [noted_of_persists List.mem_cons_self rfl, sitting, lastMutation_cons] at names
    rw [marked.names stored before, noted_of_silent (run.silent_of_written step)] at changed
    cases issued : lastMutation (sitting past) with
    | some operation =>
        rw [issued] at names
        exact ⟨operation, rfl, names⟩
    | none =>
        rw [issued] at names
        exact absurd names changed

/-- The sample record with the finalizer of someone else beside that of the engine. -/
def twiceGuardedSample : Record Plain :=
  { sampleRecord with
    metadata := { key := sampleKey, finalizers := ["a.finalizers.com", "b.finalizers.com"] } }

/-- A delete succeeds at once, and the record stays because of the other finalizer.  Then someone
puts the finalizer of the engine back: the status still names the create that came before. -/
theorem operation_hidden_by_finalizer_put_back :
    ∃ past s stored,
      Run sample sampleKey (fun _ op => LeavesStatus sampleKey op) past s ∧
      Single sampleKey past ∧ s.store.records[sampleKey]? = some stored ∧ sample.Guards stored ∧
      sitting past = [] ∧ stored.status.operation = some .create ∧
      lastRecorded past = some .delete := by
  have filed : Run sample sampleKey (fun _ op => LeavesStatus sampleKey op) _ _ :=
    .step .start (.outside sampleInstant (.create twiceGuardedSample) fun _ => rfl)
  have created := (((filed.step .begin).step (.ask (.read _ sampleKey))).step .issue).step
    (.finish .create (some (.ok ⟨.succeeded, none⟩)))
  have recorded := ((created.step (.ask (.writeStatus _ _))).step .report).step .stop
  have requested := recorded.step (.outside sampleInstant (.requestDeletion sampleKey) trivial)
  have deleted := (((requested.step .begin).step (.ask (.read _ sampleKey))).step .issue).step
    (.finish .delete (some (.ok .succeeded)))
  have released := ((deleted.step (.ask (.writeMetadata _ _))).step .report).step .stop
  have back := released.step (.outside sampleInstant (.update twiceGuardedSample true) trivial)
  exact ⟨_, _, _, back, Nat.le_refl 1, rfl, rfl, rfl, rfl, rfl⟩

end Scene

end Steward
