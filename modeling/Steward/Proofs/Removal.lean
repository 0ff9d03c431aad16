import Mathlib.Logic.Function.Iterate
import Steward.Proofs.Bench
import Steward.Proofs.Discipline
import Steward.Proofs.Hand

/-!
# A deletion that gets on

One record on a bench that is left alone: it is filed, reconciled and marked for deletion, and its
resource misbehaves as it likes.  Once the misbehaviour ends, rounds of a reconcile and a completion
remove the record, if the deletion can still get on from where it stands.  It cannot where a delete
counts as issued and as accepted, and yet the resource is left as it was.
-/

namespace Steward

open Deed Scene

/-! ## What a course keeps -/

/-- The record under the key, and the one in hand, declare what `r` does. -/
def View.Declares {σ : Type} (r : Record σ) (v : View σ) : Prop :=
  ∀ seen, v.stored = some seen ∨ v.held = some seen →
    seen.spec = r.spec ∧ seen.metadata.annotations = r.metadata.annotations

/-- Others do nothing but to file the record and to ask for its deletion. -/
def Scene.Lone {σ : Type} (r : Record σ) : Custom σ := fun _ op =>
  op = .create r ∨ op = .requestDeletion r.key

section

variable {σ : Type} [DecidableEq σ] {c : Controller σ} {r : Record σ}

theorem Store.Becomes.declares {op : StoreOp σ} {before : Option (Record σ)} {seen : Record σ}
    (becomes : Becomes r.key op before (some seen))
    (lone : op = .create r ∨ op = .requestDeletion r.key)
    (declares : ∀ stored, before = some stored →
      stored.spec = r.spec ∧ stored.metadata.annotations = r.metadata.annotations) :
    seen.spec = r.spec ∧ seen.metadata.annotations = r.metadata.annotations := by
  generalize found : some seen = after at becomes
  obtain rfl | rfl := lone <;> cases becomes
  case created =>
    cases found
    exact ⟨rfl, rfl⟩
  case marked stored _ _ =>
    cases found
    exact declares stored rfl
  case dropped => cases found
  all_goals
    exact declares seen found.symm

theorem View.Turns.declares {happening : Happening σ} {v w : View σ}
    (turns : Turns r.key happening v w)
    (lone : ∀ op reply, happening = .outside op reply →
      op = .create r ∨ op = .requestDeletion r.key)
    (based : ∀ incoming answer, happening = .did (.asked (.writeMetadata incoming) answer) →
      incoming.spec = r.spec ∧ incoming.metadata.annotations = r.metadata.annotations)
    (declares : v.Declares r) : w.Declares r := by
  cases turns with
  | outside becomes =>
      rintro seen (rfl | held)
      · exact becomes.declares (lone _ _ rfl) fun stored found => declares stored (.inl found)
      · exact declares seen (.inr held)
  | began | returned =>
      rintro seen (stored | held)
      · exact declares seen (.inl stored)
      · cases held
  | found => exact fun seen shown => declares seen (.inl (shown.elim id id))
  | unseen => exact declares
  | rewritten _ lands =>
      have based := based _ _ rfl
      rintro seen (stored | held)
      · obtain rfl := eq_of_lands lands stored
        exact based
      · cases held
        exact based
  | @restated incoming stored after held _ lands =>
      have declares := declares stored (.inl rfl)
      rintro seen (stored | held)
      · obtain rfl := eq_of_lands lands stored
        exact declares
      · cases held
        exact declares

theorem Scene.Run.declares {past : List (Happening σ)} {s : Scene σ}
    (run : Run c r.key (Lone r) past s) : (view r.key past s.store).Declares r := by
  induction run with
  | start =>
      rintro seen (stored | held)
      · simp [view] at stored
      · cases held
  | @step past s t happening run step ih =>
      refine (run.turns step).declares ?_ ?_ ih
      · rintro op reply rfl
        cases step with
        | outside now op allowed => exact allowed
      · rintro incoming answer rfl
        have upholds := run.upholds
        cases step with
        | ask =>
            obtain ⟨held, hand, spec, annotations⟩ := c.of_writeMetadata upholds.1
            obtain ⟨sameSpec, sameAnnotations⟩ := ih held (.inr hand)
            exact ⟨spec.trans sameSpec, annotations.trans sameAnnotations⟩

end

/-- The states of a bench in which a record is filed, reconciled and marked for deletion, while the
backend is told how to behave and accepted calls are completed. -/
inductive Course (c : Controller Plain) (linked : Controller Linked) (r : Record Plain) :
    Bench → Prop where
  | created (wall : Instant) :
      Course c linked r
        (({ plain := c, linked, site := { wall } } : Bench).store .plain (.create r)).2
  | behaves {b : Bench} (id : String) (behaviour : Backend.Behaviour)
      (course : Course c linked r b) : Course c linked r (b.operate (.behave id behaviour)).2
  | reconciled {b : Bench} (course : Course c linked r b) :
      Course c linked r (b.reconcile .plain r.key).2
  | completed {b : Bench} (id : String) (course : Course c linked r b) :
      Course c linked r (b.operate (.complete id)).2
  | requested {b : Bench} (course : Course c linked r b) :
      Course c linked r (b.store .plain (.requestDeletion r.key)).2

namespace Course

variable {c : Controller Plain} {linked : Controller Linked} {r : Record Plain} {b : Bench}

theorem calm (course : Course c linked r b) : b.Calm c := by
  induction course with
  | created wall =>
      refine ⟨rfl, rfl, rfl, rfl, rfl, ?_⟩
      change (Store.reply .record (({} : Store Plain).create r)).2.faults = 0
      rw [Store.reply_snd]
      exact Store.create_sound rfl r
  | behaves id behaviour _ calm => exact (calm.behave id behaviour).1
  | reconciled _ calm =>
      rw [calm.reconcile_eq]
      exact calm.carry _ _
  | completed id _ calm => exact (calm.complete id).1
  | @requested b _ calm =>
      refine ⟨calm.plain, calm.unscripted, calm.prompt, calm.manual, calm.idle, ?_⟩
      change (Store.reply _ (b.site.plain.requestDeletion b.site.wall r.key)).2.faults = 0
      rw [Store.reply_snd]
      exact Store.requestDeletion_sound calm.sound _ _

/-- A course is a history of the scene of its record. -/
theorem run (course : Course c linked r b) :
    ∃ past, Run c r.key (Lone r) past ⟨b.site.plain, .idle⟩ := by
  induction course with
  | created wall => exact ⟨_, .step .start (.outside wall (.create r) (.inl rfl))⟩
  | behaves id behaviour course ih =>
      rw [(course.calm.behave id behaviour).2]
      exact ih
  | reconciled course ih =>
      obtain ⟨past, run⟩ := ih
      obtain ⟨newer, run⟩ := course.calm.run_reconcile run
      exact ⟨_, run⟩
  | completed id course ih =>
      rw [(course.calm.complete id).2.1]
      exact ih
  | @requested b course ih =>
      obtain ⟨past, run⟩ := ih
      exact ⟨_, run.step (.outside b.site.wall (.requestDeletion r.key) (.inr rfl))⟩

end Course

/-! ## What one reconcile does to a deletion -/

/-- A record on a calm bench that is to be deleted, may be, and is held by nothing but the engine's
finalizer, and whose resource does not misbehave. -/
structure Removing (c : Controller Plain) (key : Key) (id : String) (b : Bench) (r : Record Plain) :
    Prop where
  calm : b.Calm c
  stored : b.site.plain.records[key]? = some r
  own : r.key = key
  named : c.resourceId r = id
  permitted : c.PermitsDelete r
  requested : r.metadata.isDeletionRequested = true
  alone : r.metadata.finalizers = [c.definition.finalizer]
  plainly : (b.site.backend.resource id).behaviours = []

/-- The record is gone. -/
structure Removed (c : Controller Plain) (key : Key) (b : Bench) : Prop where
  calm : b.Calm c
  absent : b.site.plain.records[key]? = none

/-- A delete was issued, and the resource is gone. -/
structure Landed (c : Controller Plain) (key : Key) (id : String) (b : Bench) (r : Record Plain) :
    Prop extends Removing c key id b r where
  marked : r.status.operation = some .delete
  latest : (b.site.backend.resource id).latest = .missing

/-- A delete was issued, and the resource is going. -/
structure Underway (c : Controller Plain) (key : Key) (id : String) (b : Bench) (r : Record Plain) :
    Prop extends Removing c key id b r where
  marked : r.status.operation = some .delete
  parked : (b.site.backend.resource id).parked = some .missing

/-- The last delete failed, and the resource is there. -/
structure Failed (c : Controller Plain) (key : Key) (id : String) (b : Bench) (r : Record Plain) :
    Prop extends Removing c key id b r where
  marked : r.status.operation = some .delete
  phase : r.status.phase = some .failed
  latest : (b.site.backend.resource id).latest = .ready ∨
    (b.site.backend.resource id).latest = .updateRequired

namespace Removing

variable {c : Controller Plain} {key : Key} {id : String} {b : Bench} {r : Record Plain}

theorem guards (removing : Removing c key id b r) : c.Guards r := by
  rw [Controller.Guards, Metadata.hasFinalizer, removing.alone]
  exact List.contains_iff_mem.mpr (List.mem_singleton_self _)

/-- A probe tells the latest condition and changes nothing. -/
theorem carry_verify (removing : Removing c key id b r) (budget : Nat) :
    ∃ payload after, b.carry budget (c.call .verify r).run =
        (.ok (.ok ⟨(b.site.backend.resource id).latest, payload⟩), after) ∧
      Removing c key id after r ∧
      (after.site.backend.resource id).latest = (b.site.backend.resource id).latest ∧
      (after.site.backend.resource id).parked = (b.site.backend.resource id).parked := by
  obtain ⟨payload, answer⟩ :=
    Backend.perform_verify removing.calm.manual b.site.clock removing.plainly
  have resource : (b.received .verify id).site.backend.resource id =
      { b.site.backend.resource id with
        requests := (b.site.backend.resource id).requests ++ [.verify] } := by
    rw [Bench.resource_received, Bench.request, Backend.Resource.receive_verify removing.plainly]
  refine ⟨payload, b.received .verify id, ?_, ?_, ?_, ?_⟩
  · rw [removing.calm.carry_attempt, removing.named, answer]
  · exact { removing with
      calm := removing.calm.received .verify id
      plainly := by rw [resource]; exact removing.plainly }
  · rw [resource]
    rfl
  · rw [resource]

/-- A delete is accepted. -/
theorem carry_delete (removing : Removing c key id b r) (budget : Nat) :
    ∃ after, b.carry budget (c.call .delete r).run =
        (.ok (.ok .awaitingVerification), after) ∧
      Removing c key id after r ∧
      (after.site.backend.resource id).parked = some .missing := by
  have resource : (b.received .delete id).site.backend.resource id =
      Backend.Resource.park
        { b.site.backend.resource id with
          requests := (b.site.backend.resource id).requests ++ [.delete] } .deleting .missing := by
    rw [Bench.resource_received, Bench.request, Backend.Resource.receive_delete removing.plainly]
  refine ⟨b.received .delete id, ?_, ?_, ?_⟩
  · rw [removing.calm.carry_attempt, removing.named,
      Backend.perform_delete removing.calm.manual b.site.clock removing.plainly]
  · exact { removing with
      calm := removing.calm.received .delete id
      plainly := by rw [resource]; exact removing.plainly }
  · rw [resource]
    rfl

/-- A status is written down, and nothing else changes. -/
theorem carry_commit (removing : Removing c key id b r) (budget : Nat) (t : Transition) :
    ∃ outcome after r', b.carry budget (c.commit r t).run = (.ok outcome, after) ∧
      Removing c key id after r' ∧ r'.status = t.apply r.status ∧
      after.site.backend = b.site.backend := by
  obtain rfl := removing.own
  have held : r.metadata.finalizers ≠ [] := by
    rw [removing.alone]
    exact List.cons_ne_nil _ _
  obtain ⟨outcome, after, resourceVersion, committed, left⟩ :=
    removing.calm.carry_commit budget removing.stored held t
  have removing' : Removing c r.key id after
      { r with metadata := { r.metadata with resourceVersion }, status := t.apply r.status } :=
    { calm := left.calm
      stored := left.found
      own := rfl
      named := removing.named
      permitted := removing.permitted
      requested := removing.requested
      alone := removing.alone
      plainly := by rw [left.backend]; exact removing.plainly }
  exact ⟨outcome, after, _, committed, removing', rfl, left.backend⟩

/-- Nothing holds the record any more once the finalizer is removed. -/
theorem carry_release (removing : Removing c key id b r) (budget : Nat) :
    ∃ outcome after, b.carry budget (c.release r).run = (.ok outcome, after) ∧
      Removed c key after := by
  have guards : r.metadata.hasFinalizer c.definition.finalizer = true := removing.guards
  obtain rfl := removing.own
  have free : (r.metadata.removeFinalizer c.definition.finalizer).finalizers = [] := by
    rw [Metadata.removeFinalizer, removing.alone]
    simp
  obtain ⟨w, dropped⟩ := Store.update_of_released removing.calm.sound removing.stored
    removing.requested (r.metadata.removeFinalizer c.definition.finalizer) rfl rfl free
  have written := b.carry_writeMetadata budget
    { r with metadata := r.metadata.removeFinalizer c.definition.finalizer }
  rw [dropped] at written
  have calm : (b.refiled (b.site.plain.drop r.key)).Calm c :=
    removing.calm.refiled removing.calm.sound
  rw [Controller.release, if_pos guards, Bench.carry_bind written,
    Bench.carry_bind (Bench.carry_report _ _ _)]
  exact ⟨_, _, rfl, calm.noted _, Std.ExtTreeMap.getElem?_erase_self⟩

/-- A delete is issued and accepted, and the status says so. -/
theorem carry_issueDelete (removing : Removing c key id b r) (budget : Nat) :
    ∃ outcome after r', b.carry budget (c.issueDelete r).run = (.ok outcome, after) ∧
      Underway c key id after r' := by
  obtain ⟨called, delete, removing, parked⟩ := removing.carry_delete budget
  obtain ⟨outcome, after, r', committed, removing, written, kept⟩ := removing.carry_commit budget
    ((Transition.inProgress "deleting resource").issued .delete)
  rw [Controller.issueDelete, Bench.carry_bind delete]
  refine ⟨outcome, after, r', committed, { removing with marked := ?_, parked := kept ▸ parked }⟩
  rw [written]
  exact Controller.operation_apply _ _

/-- What follows a probe of the deletion. -/
theorem carry_verifyDelete (removing : Removing c key id b r) (budget : Nat) :
    ∃ after, b.carry budget (c.verifyDelete r).run = after.carry budget
        (match DeletionProgress.afterVerify (b.site.backend.resource id).latest
            (r.status.phase == some Phase.failed) with
          | .reissue => c.issueDelete r
          | progress => c.advanceDeletion r progress).run ∧
      Removing c key id after r ∧
      (after.site.backend.resource id).latest = (b.site.backend.resource id).latest ∧
      (after.site.backend.resource id).parked = (b.site.backend.resource id).parked := by
  obtain ⟨payload, after, probed, removing, latest, parked⟩ := removing.carry_verify budget
  refine ⟨after, ?_, removing, latest, parked⟩
  rw [Controller.verifyDelete]
  exact Bench.carry_bind probed _

/-- A reconcile of the record probes for the delete, if one was issued, or issues it. -/
theorem reconcile_eq (removing : Removing c key id b r) :
    b.reconcile .plain key =
      b.carry c.intervals.operationTimeout
        (if r.status.operation = some .delete then c.verifyDelete r else c.issueDelete r).run :=
  removing.calm.reconcile_of_deleting removing.stored removing.requested removing.guards
    removing.permitted

end Removing

/-! ## Rounds -/

/-- A reconcile and then the completion of what is under way. -/
def Bench.round (key : Key) (id : String) (b : Bench) : Bench :=
  ((b.reconcile .plain key).2.operate (.complete id)).2

variable {c : Controller Plain} {key : Key} {id : String} {b : Bench} {r : Record Plain}

theorem Removed.round (removed : Removed c key b) : Removed c key (b.round key id) := by
  obtain ⟨calm, kept, _⟩ := removed.calm.complete id
  rw [Bench.round, removed.calm.reconcile_of_absent removed.absent]
  exact ⟨calm, by rw [kept]; exact removed.absent⟩

theorem Removed.complete (removed : Removed c key b) :
    Removed c key (b.operate (.complete id)).2 := by
  obtain ⟨calm, kept, _⟩ := removed.calm.complete id
  exact ⟨calm, by rw [kept]; exact removed.absent⟩

/-- What is parked lands, and the record stays as it is. -/
theorem Removing.complete (removing : Removing c key id b r) :
    Removing c key id (b.operate (.complete id)).2 r ∧
      ∀ condition, (b.site.backend.resource id).parked = some condition →
        ((b.operate (.complete id)).2.site.backend.resource id).latest = condition := by
  obtain ⟨calm, kept, completed⟩ := removing.calm.complete id
  constructor
  · exact { removing with
      calm
      stored := by rw [kept]; exact removing.stored
      plainly := by
        rw [completed, Backend.Resource.behaviours_complete]
        exact removing.plainly }
  · intro condition parked
    rw [completed]
    exact Backend.Resource.latest_complete parked

/-- What is under way lands. -/
theorem Underway.complete (underway : Underway c key id b r) :
    Landed c key id (b.operate (.complete id)).2 r :=
  have completed := underway.toRemoving.complete
  { completed.1 with marked := underway.marked, latest := completed.2 _ underway.parked }

/-- A reconcile that issues a delete is followed by its completion. -/
theorem Removing.round_of_issueDelete {after : Bench} (removing : Removing c key id after r)
    (reconciled : b.reconcile .plain key =
      after.carry c.intervals.operationTimeout (c.issueDelete r).run) :
    ∃ r', Landed c key id (b.round key id) r' := by
  obtain ⟨outcome, last, r', issued, underway⟩ :=
    removing.carry_issueDelete c.intervals.operationTimeout
  rw [Bench.round, reconciled, issued]
  exact ⟨r', underway.complete⟩

/-- A reconcile that finds the resource gone releases the record. -/
theorem Removing.round_of_release {after : Bench} (removing : Removing c key id after r)
    (reconciled : b.reconcile .plain key =
      after.carry c.intervals.operationTimeout (c.release r).run) :
    Removed c key (b.round key id) := by
  obtain ⟨outcome, last, released, removed⟩ :=
    removing.carry_release c.intervals.operationTimeout
  rw [Bench.round, reconciled, released]
  exact removed.complete

/-- A reconcile that leaves the deletion where it is writes down a delete. -/
theorem Removing.round_of_advance {after : Bench} (removing : Removing c key id after r)
    {progress : DeletionProgress} {t : Transition} (goes : progress.transition? = some t)
    (reconciled : b.reconcile .plain key =
      after.carry c.intervals.operationTimeout (c.advanceDeletion r progress).run) :
    ∃ r', Removing c key id (b.round key id) r' ∧ r'.status.operation = some .delete ∧
      r'.status.phase = some t.phase ∧
      ∀ condition, (after.site.backend.resource id).parked = some condition →
        ((b.round key id).site.backend.resource id).latest = condition := by
  have commits : c.advanceDeletion r progress = c.commit r t := by
    cases progress <;> cases goes <;> rfl
  have issued : t.operation = some .delete := by
    cases progress <;> cases goes <;> rfl
  obtain ⟨outcome, last, r', committed, removing, written, kept⟩ :=
    removing.carry_commit c.intervals.operationTimeout t
  obtain ⟨removing, lands⟩ := removing.complete
  rw [Bench.round, reconciled, commits, committed]
  refine ⟨r', removing, ?_, ?_, fun condition parked => lands condition (kept ▸ parked)⟩
  · rw [written, Controller.operation_apply, issued]
    rfl
  · rw [written, Controller.phase_apply]

theorem Removing.round_of_unissued (removing : Removing c key id b r)
    (unissued : r.status.operation ≠ some .delete) :
    ∃ r', Landed c key id (b.round key id) r' :=
  removing.round_of_issueDelete (by rw [removing.reconcile_eq, if_neg unissued])

theorem Failed.round (failed : Failed c key id b r) :
    ∃ r', Landed c key id (b.round key id) r' := by
  obtain ⟨after, probed, removing, _⟩ :=
    failed.carry_verifyDelete c.intervals.operationTimeout
  refine removing.round_of_issueDelete ?_
  rw [failed.reconcile_eq, if_pos failed.marked, probed, failed.phase]
  obtain present | present := failed.latest <;> rw [present] <;> rfl

theorem Landed.round (landed : Landed c key id b r) : Removed c key (b.round key id) := by
  obtain ⟨after, probed, removing, _⟩ :=
    landed.carry_verifyDelete c.intervals.operationTimeout
  refine removing.round_of_release ?_
  rw [landed.reconcile_eq, if_pos landed.marked, probed, landed.latest]
  rfl

theorem Underway.round (underway : Underway c key id b r) :
    Removed c key (b.round key id) ∨ ∃ r', Landed c key id (b.round key id) r' := by
  obtain ⟨after, probed, removing, _, parked⟩ :=
    underway.carry_verifyDelete c.intervals.operationTimeout
  have reconciled := underway.reconcile_eq
  rw [if_pos underway.marked, probed] at reconciled
  cases progress : DeletionProgress.afterVerify (b.site.backend.resource id).latest
      (r.status.phase == some .failed) with
  | confirmed =>
      rw [progress] at reconciled
      exact .inl (removing.round_of_release reconciled)
  | reissue =>
      rw [progress] at reconciled
      exact .inr (removing.round_of_issueDelete reconciled)
  | inProgress | failed =>
      rw [progress] at reconciled
      obtain ⟨r', removing, marked, _, lands⟩ := removing.round_of_advance rfl reconciled
      exact .inr ⟨r', { removing with marked, latest := lands _ (parked.trans underway.parked) }⟩

/-- A resource that is broken until what is under way brings it back. -/
structure Returning (c : Controller Plain) (key : Key) (id : String) (b : Bench)
    (r : Record Plain) : Prop extends Removing c key id b r where
  marked : r.status.operation = some .delete
  latest : (b.site.backend.resource id).latest = .error
  parked : (b.site.backend.resource id).parked = some .ready

/-- The probe fails, which counts as a delete that failed, and then the resource is there. -/
theorem Returning.round (returning : Returning c key id b r) :
    ∃ r', Failed c key id (b.round key id) r' := by
  obtain ⟨after, probed, removing, _, parked⟩ :=
    returning.carry_verifyDelete c.intervals.operationTimeout
  have reconciled := returning.reconcile_eq
  rw [if_pos returning.marked, probed, returning.latest] at reconciled
  obtain ⟨r', removing, marked, phase, lands⟩ := removing.round_of_advance rfl reconciled
  exact ⟨r', { removing with
    marked, phase, latest := .inl (lands _ (parked.trans returning.parked)) }⟩

theorem Removed.iterate (removed : Removed c key b) (id : String) (n : Nat) :
    Removed c key ((Bench.round key id)^[n] b) :=
  Function.Iterate.rec (Removed c key) removed (fun _ removed => removed.round) n

/-- Where a deletion gets on: no delete was issued yet; or the resource is gone, or going; or the
last call failed and the resource is there, or broken until what is under way brings it back. -/
inductive OnTrack (status : Status) (latest : Condition) (parked : Option Condition) : Prop where
  | unissued (unissued : status.operation ≠ some .delete)
  | landed (landed : latest = .missing)
  | underway (underway : parked = some .missing)
  | failed (failed : status.phase = some .failed)
      (present : latest = .ready ∨ latest = .updateRequired)
  | returning (broken : latest = .error) (returning : parked = some .ready)

/-- Three rounds remove a record whose deletion is on track. -/
theorem Removing.three_rounds (removing : Removing c key id b r)
    (onTrack : OnTrack r.status (b.site.backend.resource id).latest
      (b.site.backend.resource id).parked) :
    Removed c key ((Bench.round key id)^[3] b) := by
  have landed {b : Bench} (landed : ∃ r', Landed c key id (b.round key id) r') :
      Removed c key ((b.round key id).round key id) :=
    landed.elim fun _ landed => landed.round
  change Removed c key (((b.round key id).round key id).round key id)
  by_cases marked : r.status.operation = some .delete
  · cases onTrack with
    | unissued unissued => exact absurd marked unissued
    | landed latest =>
        have landed : Landed c key id b r := { removing with marked, latest }
        exact landed.round.round.round
    | underway parked =>
        have underway : Underway c key id b r := { removing with marked, parked }
        obtain removed | soon := underway.round
        · exact removed.round.round
        · exact (landed soon).round
    | failed phase latest =>
        have failed : Failed c key id b r := { removing with marked, phase, latest }
        exact (landed failed.round).round
    | returning latest parked =>
        have returning : Returning c key id b r := { removing with marked, latest, parked }
        obtain ⟨r', failed⟩ := returning.round
        exact landed failed.round
  · exact (landed (removing.round_of_unissued marked)).round

/-- Once a resource stops to misbehave, at most three rounds of a reconcile and a completion remove
a record that is to be deleted and that only the engine's finalizer holds, and it stays removed, if
its deletion is on track. -/
theorem deletion_completes {linked : Controller Linked} {stored : Record Plain} {n : Nat}
    (permitted : c.PermitsDelete r) (course : Course c linked r b)
    (found : b.site.plain.records[r.key]? = some stored)
    (requested : stored.metadata.isDeletionRequested = true)
    (alone : stored.metadata.finalizers = [c.definition.finalizer])
    (onTrack : OnTrack stored.status (b.site.backend.resource (c.resourceId r)).latest
      (b.site.backend.resource (c.resourceId r)).parked)
    (enough : 3 ≤ n) :
    ((Bench.round r.key (c.resourceId r))^[n]
      (b.operate (.clearBehaviours (c.resourceId r))).2).site.plain.contains r.key = false := by
  obtain ⟨past, run⟩ := course.run
  obtain ⟨spec, annotations⟩ := run.declares stored (.inl found)
  obtain ⟨calm, kept, cleared⟩ := course.calm.clearBehaviours (c.resourceId r)
  have removing : Removing c r.key (c.resourceId r)
      (b.operate (.clearBehaviours (c.resourceId r))).2 stored :=
    { calm
      stored := by rw [kept]; exact found
      own := run.filed _ _ found
      named := by rw [Controller.resourceId, Controller.resourceId, spec]
      permitted := by
        rw [Controller.PermitsDelete, annotations]
        exact permitted
      requested
      alone
      plainly := by rw [cleared] }
  have removed := removing.three_rounds (by rw [cleared]; exact onTrack)
  obtain ⟨more, rfl⟩ := Nat.exists_eq_add_of_le' enough
  rw [Function.iterate_add_apply]
  have absent := (removed.iterate (c.resourceId r) more).absent
  rw [Store.contains, Std.ExtTreeMap.contains_eq_isSome_getElem?, absent]
  rfl

/-- A bench on which the resource of the sample record was created, and deleting it failed. -/
def failedDelete : Bench :=
  let b := (({ plain := sample, linked := linkedSample } : Bench).store .plain
    (.create sampleRecord)).2
  let b := (b.operate (.behave "vm-1" { reaction := .deleteFail })).2
  let b := ((b.reconcile .plain sampleKey).2.operate (.complete "vm-1")).2
  ((b.store .plain (.requestDeletion sampleKey)).2.reconcile .plain sampleKey).2

/-- Once it can be deleted, the record of a delete that failed is removed. -/
theorem deletion_completes_of_failedDelete :
    Course sample linkedSample sampleRecord failedDelete ∧ sample.PermitsDelete sampleRecord ∧
      ∃ stored, failedDelete.site.plain.records[sampleKey]? = some stored ∧
        stored.metadata.isDeletionRequested = true ∧
        stored.metadata.finalizers = ["a.finalizers.com"] ∧
        OnTrack stored.status (failedDelete.site.backend.resource "vm-1").latest
          (failedDelete.site.backend.resource "vm-1").parked ∧
        ((Bench.round sampleKey "vm-1")^[3]
          (failedDelete.operate (.clearBehaviours "vm-1")).2).site.plain.contains sampleKey =
            false := by
  have course : Course sample linkedSample sampleRecord failedDelete :=
    .reconciled (.requested (.completed "vm-1" (.reconciled (.behaves "vm-1" _ (.created _)))))
  have shown : failedDelete.site.plain.records[sampleKey]?.any (fun r =>
      r.metadata.isDeletionRequested && r.metadata.finalizers == ["a.finalizers.com"] &&
        r.status.phase == some .failed) = true := by decide +kernel
  obtain ⟨stored, found, known⟩ := (Option.any_eq_true _ _).mp shown
  simp only [Bool.and_eq_true, beq_iff_eq] at known
  obtain ⟨⟨requested, alone⟩, failed⟩ := known
  have onTrack : OnTrack stored.status (failedDelete.site.backend.resource "vm-1").latest
      (failedDelete.site.backend.resource "vm-1").parked := .failed failed (.inl (by decide +kernel))
  have permitted : sample.PermitsDelete sampleRecord := rfl
  have named : sample.resourceId sampleRecord = "vm-1" := rfl
  have completes := deletion_completes permitted course found requested alone
    (by rw [named]; exact onTrack) (Nat.le_refl 3)
  rw [named] at completes
  exact ⟨course, permitted, stored, found, requested, alone, onTrack, completes⟩

/-- A bench on which the resource of the sample record was deleted, and a probe says nevertheless
that it has to be updated. -/
def driftedDelete : Bench :=
  let b := (({ plain := sample, linked := linkedSample } : Bench).store .plain
    (.create sampleRecord)).2
  let b := ((b.reconcile .plain sampleKey).2.operate (.complete "vm-1")).2
  let b := (b.store .plain (.requestDeletion sampleKey)).2
  let b := ((b.reconcile .plain sampleKey).2.operate (.complete "vm-1")).2
  let b := (b.operate (.behave "vm-1" { reaction := .verifyNeedsUpdate })).2
  (b.reconcile .plain sampleKey).2

/-- A delete that was accepted and came undone is waited for: the record is there after any of four
rounds. -/
theorem deletion_stalls_of_driftedDelete :
    Course sample linkedSample sampleRecord driftedDelete ∧ sample.PermitsDelete sampleRecord ∧
      (∃ stored, driftedDelete.site.plain.records[sampleKey]? = some stored ∧
        stored.metadata.isDeletionRequested = true ∧
        stored.metadata.finalizers = ["a.finalizers.com"]) ∧
      ∀ n ≤ 4, ((Bench.round sampleKey "vm-1")^[n]
        (driftedDelete.operate (.clearBehaviours "vm-1")).2).site.plain.contains sampleKey =
          true := by
  have course : Course sample linkedSample sampleRecord driftedDelete :=
    .reconciled (.behaves "vm-1" _ (.completed "vm-1" (.reconciled (.requested
      (.completed "vm-1" (.reconciled (.created _)))))))
  have shown : driftedDelete.site.plain.records[sampleKey]?.any (fun r =>
      r.metadata.isDeletionRequested && r.metadata.finalizers == ["a.finalizers.com"]) = true := by
    decide +kernel
  obtain ⟨stored, found, known⟩ := (Option.any_eq_true _ _).mp shown
  simp only [Bool.and_eq_true, beq_iff_eq] at known
  exact ⟨course, rfl, ⟨stored, found, known⟩, by decide +kernel⟩

end Steward
