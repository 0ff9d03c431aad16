import Steward.Proofs.Procedure
import Steward.Reconcile

/-!
# The conduct of a reconcile

What one reconcile asks and calls, whatever it is answered.  It reads its record first.  It adds
its finalizer right after it read a record that lacks it and is to stay; it calls the manager, and
writes a status, only for a record in hand that carries the finalizer; and it takes the finalizer
away only from a record that it read with deletion requested, for one of three reasons.
-/

namespace Steward

namespace Metadata

theorem hasFinalizer_addFinalizer (m : Metadata) (name : String) :
    (m.addFinalizer name).hasFinalizer name = true := by
  rw [addFinalizer]
  split
  case isTrue held => exact held
  case isFalse => simp [hasFinalizer]

theorem hasFinalizer_removeFinalizer (m : Metadata) (name : String) :
    (m.removeFinalizer name).hasFinalizer name = false := by
  simp [removeFinalizer, hasFinalizer]

theorem addFinalizer_of_lacks {m : Metadata} {name : String}
    (lacks : ¬ m.hasFinalizer name = true) :
    m.addFinalizer name = { m with finalizers := m.finalizers ++ [name] } := if_neg lacks

theorem key_addFinalizer (m : Metadata) (name : String) : (m.addFinalizer name).key = m.key := by
  rw [addFinalizer]
  split <;> rfl

theorem annotations_addFinalizer (m : Metadata) (name : String) :
    (m.addFinalizer name).annotations = m.annotations := by
  rw [addFinalizer]
  split <;> rfl

theorem resourceVersion_addFinalizer (m : Metadata) (name : String) :
    (m.addFinalizer name).resourceVersion = m.resourceVersion := by
  rw [addFinalizer]
  split <;> rfl

end Metadata

namespace Controller

open Deed

variable {σ : Type} {c : Controller σ} {key : Key} {r : Record σ} {deeds : List (Deed σ)}

/-- The record carries the engine's finalizer. -/
def Guards (c : Controller σ) (r : Record σ) : Prop :=
  r.metadata.hasFinalizer c.definition.finalizer = true

theorem Guards.finalizers_ne_nil (guards : c.Guards r) : r.metadata.finalizers ≠ [] := by
  intro none
  rw [Guards, Metadata.hasFinalizer, none] at guards
  cases guards

/-- The annotation of the record permits to delete its resource. -/
def PermitsDelete (c : Controller σ) (r : Record σ) : Prop :=
  (Permissions.ofAnnotations r.metadata.annotations c.permissionKey).allows .delete = true

/-- In these deeds the record was read and a delete was issued for it. -/
def DeleteIssued (c : Controller σ) (key : Key) (r : Record σ) (deeds : List (Deed σ)) : Prop :=
  .asked (.read key) (.ok (some r)) ∈ deeds ∧ .issued .delete (c.resourceId r) r.spec ∈ deeds

/-- Why the finalizer of a record that is being deleted may go. -/
inductive ReleaseReason (c : Controller σ) (key : Key) (r : Record σ) (deeds : List (Deed σ)) :
    Prop where
  | denied (denied : ¬ c.PermitsDelete r)
  | deleted (issued : c.DeleteIssued key r deeds)
      (answered : .ended .delete (some (.ok .succeeded)) ∈ deeds)
  | gone (marked : r.status.operation = some .delete) (payload : Option Payload)
      (answered : .ended .verify (some (.ok ⟨.missing, payload⟩)) ∈ deeds)

/-- The write that adds the finalizer to a record that was just read. -/
structure Secures (c : Controller σ) (key : Key) (deeds : List (Deed σ)) (r incoming : Record σ) :
    Prop where
  read : deeds = [.asked (.read key) (.ok (some r))]
  stays : r.metadata.isDeletionRequested = false
  unguarded : ¬ c.Guards r
  written : incoming = { r with metadata := r.metadata.addFinalizer c.definition.finalizer }

/-- The write that takes the finalizer away. -/
structure Releases (c : Controller σ) (key : Key) (deeds : List (Deed σ)) (r incoming : Record σ) :
    Prop where
  read : .asked (.read key) (.ok (some r)) ∈ deeds
  requested : r.metadata.isDeletionRequested = true
  guards : c.Guards r
  reason : c.ReleaseReason key r deeds
  written : incoming = { r with metadata := r.metadata.removeFinalizer c.definition.finalizer }

/-- The write of a status.  Only a record for which a delete was issued is marked with one. -/
structure Records (c : Controller σ) (key : Key) (deeds : List (Deed σ)) (r incoming : Record σ) :
    Prop where
  guards : c.Guards r
  written : ∃ status, incoming = { r with status }
  marker : incoming.status.operation = some .delete →
    r.status.operation = some .delete ∨ c.DeleteIssued key r deeds

/-- What a reconcile of the record under `key` may ask and call next. -/
def conduct (c : Controller σ) (key : Key) : Conduct σ where
  asks
    | deeds, .read k => deeds = [] ∧ k = key
    | deeds, .writeMetadata incoming => ∃ r, inHand deeds = some r ∧ r.key = key ∧
        (c.Secures key deeds r incoming ∨ c.Releases key deeds r incoming)
    | deeds, .writeStatus incoming => ∃ r, inHand deeds = some r ∧ r.key = key ∧
        c.Records key deeds r incoming
    | _, .readStatus _ => True
  calls deeds _ id spec := ∃ r, inHand deeds = some r ∧ r.key = key ∧ c.Guards r ∧
    id = c.resourceId r ∧ spec = r.spec

/-- What a reconcile writes is based on the record in hand. -/
theorem of_written {query : Query σ} {incoming : Record σ}
    (asks : (c.conduct key).asks deeds query) (written : query.written? = some incoming) :
    ∃ held, inHand deeds = some held ∧ held.key = key ∧ incoming.key = key ∧
      incoming.metadata.resourceVersion = held.metadata.resourceVersion := by
  cases query with
  | read | readStatus => cases written
  | writeMetadata r =>
      cases written
      obtain ⟨held, hand, own, secures | releases⟩ := asks
      · refine ⟨held, hand, own, ?_, ?_⟩ <;> rw [secures.written]
        · exact (held.metadata.key_addFinalizer _).trans own
        · exact held.metadata.resourceVersion_addFinalizer _
      · refine ⟨held, hand, own, ?_, ?_⟩ <;> rw [releases.written]
        · exact own
        · rfl
  | writeStatus r =>
      cases written
      obtain ⟨held, hand, own, records⟩ := asks
      obtain ⟨status, rfl⟩ := records.written
      exact ⟨held, hand, own, own, rfl⟩

/-- What a reconcile writes of a record other than its status declares the same as the record in
hand. -/
theorem of_writeMetadata {incoming : Record σ}
    (asks : (c.conduct key).asks deeds (.writeMetadata incoming)) :
    ∃ held, inHand deeds = some held ∧ incoming.spec = held.spec ∧
      incoming.metadata.annotations = held.metadata.annotations := by
  obtain ⟨held, hand, _, secures | releases⟩ := asks
  · refine ⟨held, hand, ?_, ?_⟩ <;> rw [secures.written]
    exact held.metadata.annotations_addFinalizer _
  · exact ⟨held, hand, by rw [releases.written], by rw [releases.written]; rfl⟩

/-- Whatever the stores show a reconcile is the record under its key. -/
theorem key_of_shown {query : Query σ} {answer : query.Answer}
    (asks : (c.conduct key).asks deeds query) (fits : query.Fits answer)
    (shown : (Deed.asked query answer).record? = some r) : r.key = key := by
  cases query with
  | readStatus => cases shown
  | read k =>
      obtain ⟨_, rfl⟩ := asks
      cases answer with
      | error fault => cases shown
      | ok found => exact fits r (congrArg Except.ok shown)
  | writeMetadata incoming | writeStatus incoming =>
      obtain ⟨_, _, _, own, _⟩ := c.of_written asks rfl
      cases answer with
      | error fault => cases shown
      | ok written =>
          cases shown
          exact (fits r rfl).1.trans own

/-- Nothing is promised of a result. -/
abbrev anyEnd {α : Type} : List (Deed σ) → Except Fault α → Prop := fun _ _ => True

/-! ## Writing a status -/

theorem operation_apply (t : Transition) (previous : Status) :
    (t.apply previous).operation = (t.operation <|> previous.operation) := by
  rw [Transition.apply]
  cases t.payload <;> rfl

theorem phase_apply (t : Transition) (previous : Status) :
    (t.apply previous).phase = some t.phase := by
  rw [Transition.apply]
  cases t.payload <;> rfl

theorem commit_upholds [DecidableEq σ] {t : Transition} (hand : inHand deeds = some r)
    (own : r.key = key) (guards : c.Guards r)
    (marker : t.operation = some .delete →
      r.status.operation = some .delete ∨ c.DeleteIssued key r deeds) :
    (c.commit r t).Upholds (c.conduct key) anyEnd deeds := by
  rw [commit]
  by_cases same : t.apply r.status = r.status
  · rw [if_neg (not_not_intro same)]
    exact trivial
  rw [if_pos same, Attempt.upholds_bind, Attempt.upholds_writeStatus]
  refine ⟨⟨r, hand, own, guards, ⟨_, rfl⟩, fun marked => ?_⟩, fun answer _ => ?_⟩
  · rw [operation_apply] at marked
    cases issued : t.operation with
    | none => exact .inl (by simpa [issued] using marked)
    | some operation => exact marker (by simpa [issued] using marked)
  · cases answer with
    | error fault => exact trivial
    | ok stored =>
        rw [Attempt.Onward]
        split
        · rw [Attempt.upholds_bind, Attempt.upholds_report]
          exact trivial
        · exact trivial

/-! ## A record that stays -/

/-- After it was decided what to do with a record that stays: the record is still in hand, and no
delete was decided. -/
def Decided (r : Record σ) (deeds : List (Deed σ)) : Except Fault Transition → Prop
  | .ok t => inHand deeds = some r ∧ t.operation ≠ some .delete
  | .error _ => True

theorem operation_afterApply (operation : Mutation)
    (answer : Except String (Response ApplyResult)) :
    (Transition.afterApply operation answer).operation = some operation := by
  obtain _ | ⟨_ | _ | _, _⟩ := answer <;> rfl

theorem apply_upholds {operation : Mutation} {permissions : Permissions}
    (mutates : operation ≠ .delete) (hand : inHand deeds = some r) (own : r.key = key)
    (guards : c.Guards r) :
    (c.apply operation r permissions).Upholds (c.conduct key) (Decided r) deeds := by
  have issued (answer : Except String (Response ApplyResult)) :
      (Transition.afterApply operation answer).operation ≠ some .delete := by
    rw [operation_afterApply]
    exact fun same => mutates (Option.some.inj same)
  have called (k : Call) : (c.conduct key).calls deeds k (c.resourceId r) r.spec :=
    ⟨r, hand, own, guards, rfl, rfl⟩
  rw [apply]
  split
  · exact ⟨hand, by simp [Transition.denied, Transition.failed, Transition.reporting]⟩
  split
  · rw [Attempt.upholds_bind, call, Attempt.upholds_call]
    exact ⟨called .update, trivial, fun answer => ⟨hand, issued answer⟩⟩
  · rw [Attempt.upholds_bind, call, Attempt.upholds_call]
    exact ⟨called .create, trivial, fun answer => ⟨hand, issued answer⟩⟩

/-- What a condition calls for is to write a status that marks no operation, or to create or
update. -/
theorem ofCondition_cases (found : Condition) (phase : Option Phase) :
    (∃ t, Verdict.ofCondition found phase = .settle t ∧ t.operation = none) ∨
      ∃ operation, Verdict.ofCondition found phase = .apply operation ∧
        operation ≠ .delete := by
  unfold Verdict.ofCondition
  cases found
  case ready => exact .inl ⟨_, rfl, rfl⟩
  case updateRequired => exact .inr ⟨_, rfl, by decide⟩
  case inProgress => exact .inl ⟨_, rfl, rfl⟩
  case missing =>
    simp only
    split
    · exact .inl ⟨_, rfl, rfl⟩
    · split
      · exact .inr ⟨_, rfl, by decide⟩
      · exact .inl ⟨_, rfl, rfl⟩
  case deleting =>
    simp only
    split <;> exact .inl ⟨_, rfl, rfl⟩
  case error => exact .inl ⟨_, rfl, rfl⟩

theorem drive_upholds {permissions : Permissions} (hand : inHand deeds = some r)
    (own : r.key = key) (guards : c.Guards r) :
    (c.drive r permissions).Upholds (c.conduct key) (Decided r) deeds := by
  rw [drive]
  split
  · exact apply_upholds (by decide) hand own guards
  rw [Attempt.upholds_bind, call, Attempt.upholds_call]
  refine ⟨⟨r, hand, own, guards, rfl, rfl⟩, trivial, fun answer => ?_⟩
  obtain message | ⟨found, payload⟩ := answer
  · exact ⟨hand, by simp [Transition.failed, Transition.reporting]⟩
  rw [Attempt.Onward]
  obtain ⟨t, settles, unmarked⟩ | ⟨operation, applies, mutates⟩ :=
    ofCondition_cases found r.status.phase
  · simp only [settles]
    exact ⟨hand, by simp [Transition.withPayload, unmarked]⟩
  · simp only [applies]
    exact apply_upholds mutates hand own guards

/-- What every look at a status keeps holds when the references were checked, as far as they were. -/
theorem check_upholds {conduct : Conduct σ}
    {post : List (Deed σ) → Except Fault Readiness → Prop} (kept : List (Deed σ) → Prop)
    (allowed : ∀ deeds key, conduct.asks deeds (.readStatus key))
    (next : ∀ deeds key answer, kept deeds → kept (.asked (.readStatus key) answer :: deeds))
    (ends : ∀ deeds result, kept deeds → post deeds result) (refs : List (Role × Reference))
    (now : kept deeds) :
    Procedure.Upholds conduct post (Readiness.check Attempt.readStatus refs) deeds := by
  induction refs generalizing deeds with
  | nil => exact ends deeds _ now
  | cons entry rest ih =>
      obtain ⟨role, ref⟩ := entry
      refine ⟨allowed deeds ref.key, fun answer _ => ?_⟩
      have now := next deeds ref.key answer now
      cases answer with
      | error fault => exact ends _ _ now
      | ok status =>
          cases found : Readiness.ofStatus role ref status with
          | some readiness =>
              simp only [Procedure.bind, found]
              exact ends _ _ now
          | none =>
              simp only [Procedure.bind, found]
              exact ih now

/-- After the finalizer was put in place. -/
def Secured (c : Controller σ) (key : Key) (deeds : List (Deed σ)) :
    Except Fault (Record σ) → Prop
  | .ok r => inHand deeds = some r ∧ r.key = key ∧ c.Guards r
  | .error _ => True

theorem ensureFinalizer_upholds (own : r.key = key)
    (stays : r.metadata.isDeletionRequested = false) :
    (c.ensureFinalizer r).Upholds (c.conduct key) (c.Secured key)
      [.asked (.read key) (.ok (some r))] := by
  rw [ensureFinalizer]
  split
  case isTrue guards => exact ⟨rfl, own, guards⟩
  case isFalse unguarded =>
    rw [Attempt.upholds_writeMetadata]
    refine ⟨⟨r, rfl, own, .inl ⟨rfl, stays, unguarded, rfl⟩⟩, fun answer fits => ?_⟩
    cases answer with
    | error fault => exact trivial
    | ok stored =>
        obtain ⟨sameKey, _, _, finalizers⟩ := fits stored rfl
        refine ⟨rfl, sameKey.trans ?_, ?_⟩
        · exact (r.metadata.key_addFinalizer _).trans own
        · rw [Guards, Metadata.hasFinalizer]
          rw [finalizers]
          exact r.metadata.hasFinalizer_addFinalizer c.definition.finalizer

theorem reconcilePresent_upholds [DecidableEq σ] {permissions : Permissions} (own : r.key = key)
    (stays : r.metadata.isDeletionRequested = false) :
    (c.reconcilePresent r permissions).Upholds (c.conduct key) anyEnd
      [.asked (.read key) (.ok (some r))] := by
  rw [reconcilePresent]
  rw [Attempt.upholds_bind]
  refine (ensureFinalizer_upholds own stays).imp fun deeds result secured => ?_
  obtain fault | r := result
  · exact trivial
  obtain ⟨hand, own, guards⟩ := secured
  rw [Attempt.Onward]
  split
  · exact commit_upholds hand own guards (by simp [Transition.failed, Transition.reporting])
  · exact trivial
  rw [Attempt.upholds_bind]
  -- To look up statuses leaves the record in hand.
  refine check_upholds (fun deeds => inHand deeds = some r) (fun _ _ => trivial)
    (fun _ _ _ hand => hand) (fun deeds result hand => ?_) _ hand
  obtain fault | readiness := result
  · exact trivial
  rw [Attempt.Onward]
  split
  · rw [Attempt.upholds_bind]
    refine (drive_upholds hand own guards).imp fun deeds result decided => ?_
    obtain fault | t := result
    · exact trivial
    · exact commit_upholds decided.1 own guards fun deletes => absurd deletes decided.2
  · exact commit_upholds hand own guards (by simp [Transition.pending])

/-! ## A record that is to be deleted -/

/-- What is known all through the deletion of a record. -/
structure Deleting (c : Controller σ) (key : Key) (r : Record σ) (deeds : List (Deed σ)) :
    Prop where
  hand : inHand deeds = some r
  own : r.key = key
  guards : c.Guards r
  requested : r.metadata.isDeletionRequested = true
  read : .asked (.read key) (.ok (some r)) ∈ deeds

theorem Deleting.reported (deleting : c.Deleting key r deeds) (event : Event) :
    c.Deleting key r (.reported event :: deeds) where
  hand := deleting.hand
  own := deleting.own
  guards := deleting.guards
  requested := deleting.requested
  read := List.mem_cons_of_mem _ deleting.read

theorem Deleting.called (deleting : c.Deleting key r deeds) (k : Call) (ending : k.Ending) :
    c.Deleting key r (.ended k ending :: .issued k (c.resourceId r) r.spec :: deeds) where
  hand := deleting.hand
  own := deleting.own
  guards := deleting.guards
  requested := deleting.requested
  read := List.mem_cons_of_mem _ (List.mem_cons_of_mem _ deleting.read)

/-- The manager may be called. -/
theorem Deleting.calls (deleting : c.Deleting key r deeds) (k : Call) :
    (c.conduct key).calls deeds k (c.resourceId r) r.spec :=
  ⟨r, deleting.hand, deleting.own, deleting.guards, rfl, rfl⟩

theorem Deleting.issued (deleting : c.Deleting key r deeds) (ending : Call.delete.Ending) :
    c.DeleteIssued key r
      (.ended .delete ending :: .issued .delete (c.resourceId r) r.spec :: deeds) :=
  ⟨(deleting.called .delete ending).read, List.mem_cons_of_mem _ List.mem_cons_self⟩

theorem release_upholds (deleting : c.Deleting key r deeds)
    (reason : c.ReleaseReason key r deeds) :
    (c.release r).Upholds (c.conduct key) anyEnd deeds := by
  have guards : r.metadata.hasFinalizer c.definition.finalizer = true := deleting.guards
  rw [release]
  simp only [guards, if_true]
  rw [Attempt.upholds_bind, Attempt.upholds_writeMetadata]
  refine ⟨⟨r, deleting.hand, deleting.own, .inr ⟨deleting.read, deleting.requested,
    deleting.guards, reason, rfl⟩⟩, fun answer _ => ?_⟩
  cases answer with
  | error fault => exact trivial
  | ok stored =>
      rw [Attempt.Onward, Attempt.upholds_bind, Attempt.upholds_report]
      exact trivial

theorem advanceDeletion_upholds [DecidableEq σ] {progress : DeletionProgress}
    (deleting : c.Deleting key r deeds)
    (reason : progress = .confirmed → c.ReleaseReason key r deeds)
    (marker : r.status.operation = some .delete ∨ c.DeleteIssued key r deeds) :
    (c.advanceDeletion r progress).Upholds (c.conduct key) anyEnd deeds := by
  unfold advanceDeletion
  cases progress with
  | confirmed => exact release_upholds deleting (reason rfl)
  | inProgress => exact commit_upholds deleting.hand deleting.own deleting.guards fun _ => marker
  | reissue => exact commit_upholds deleting.hand deleting.own deleting.guards fun _ => marker
  | failed => exact commit_upholds deleting.hand deleting.own deleting.guards fun _ => marker

theorem issueDelete_upholds [DecidableEq σ] (deleting : c.Deleting key r deeds) :
    (c.issueDelete r).Upholds (c.conduct key) anyEnd deeds := by
  rw [issueDelete]
  rw [Attempt.upholds_bind, call, Attempt.upholds_call]
  refine ⟨deleting.calls .delete, trivial, fun answer => ?_⟩
  have issued := deleting.issued (some answer)
  have deleting := deleting.called .delete (some answer)
  obtain message | result := answer
  · exact advanceDeletion_upholds deleting (fun confirmed => by cases confirmed) (.inr issued)
  · refine advanceDeletion_upholds deleting (fun confirmed => ?_) (.inr issued)
    cases result with
    | succeeded => exact .deleted issued List.mem_cons_self
    | awaitingVerification => cases confirmed
    | error => cases confirmed

theorem afterVerify_eq_confirmed {found : Condition} {attemptFailed : Bool}
    (confirmed : DeletionProgress.afterVerify found attemptFailed = .confirmed) :
    found = .missing := by
  cases found <;> cases attemptFailed <;> first | rfl | cases confirmed

theorem verifyDelete_upholds [DecidableEq σ] (deleting : c.Deleting key r deeds)
    (marked : r.status.operation = some .delete) :
    (c.verifyDelete r).Upholds (c.conduct key) anyEnd deeds := by
  rw [verifyDelete]
  rw [Attempt.upholds_bind, call, Attempt.upholds_call]
  refine ⟨deleting.calls .verify, trivial, fun answer => ?_⟩
  have deleting := deleting.called .verify (some answer)
  obtain message | ⟨found, payload⟩ := answer
  · exact advanceDeletion_upholds deleting (fun confirmed => by cases confirmed) (.inl marked)
  simp only [Attempt.Onward]
  split
  · exact issueDelete_upholds deleting
  · refine advanceDeletion_upholds deleting (fun confirmed => ?_) (.inl marked)
    obtain rfl := afterVerify_eq_confirmed confirmed
    exact .gone marked payload List.mem_cons_self

/-- What each plan for a deletion says about the record. -/
def PlannedFor (c : Controller σ) (r : Record σ) : DeletionPlan → Prop
  | .nothing => ¬ c.Guards r
  | .releaseWithoutDelete => c.Guards r ∧ ¬ c.PermitsDelete r
  | .delete => c.Guards r ∧ c.PermitsDelete r ∧ r.status.operation ≠ some .delete
  | .verifyDelete => c.Guards r ∧ c.PermitsDelete r ∧ r.status.operation = some .delete

theorem plannedFor_next (c : Controller σ) (r : Record σ) :
    c.PlannedFor r (DeletionPlan.next r.metadata r.status
      (Permissions.ofAnnotations r.metadata.annotations c.permissionKey)
      c.definition.finalizer) := by
  rw [DeletionPlan.next]
  by_cases guards : c.Guards r
  · rw [if_neg (by simpa [Guards] using guards)]
    by_cases permitted : c.PermitsDelete r
    · rw [if_neg (by simpa [PermitsDelete] using permitted)]
      split
      case isTrue marked => exact ⟨guards, permitted, marked⟩
      case isFalse unmarked => exact ⟨guards, permitted, unmarked⟩
    · rw [if_pos (by simpa [PermitsDelete] using permitted)]
      exact ⟨guards, permitted⟩
  · rw [if_pos (by simpa [Guards] using guards)]
    exact guards

theorem reconcileDeletion_upholds [DecidableEq σ] (own : r.key = key)
    (requested : r.metadata.isDeletionRequested = true) :
    (c.reconcileDeletion r
        (Permissions.ofAnnotations r.metadata.annotations c.permissionKey)).Upholds
      (c.conduct key) anyEnd [.asked (.read key) (.ok (some r))] := by
  have deleting (guards : c.Guards r) :
      c.Deleting key r [.asked (.read key) (.ok (some r))] :=
    ⟨rfl, own, guards, requested, List.mem_cons_self⟩
  have planned := plannedFor_next c r
  rw [reconcileDeletion]
  split <;> rename_i plan <;> rw [plan] at planned
  · exact trivial
  · rw [Attempt.upholds_bind, Attempt.upholds_report]
    exact release_upholds ((deleting planned.1).reported _) (.denied planned.2)
  · exact issueDelete_upholds (deleting planned.1)
  · exact verifyDelete_upholds (deleting planned.1) planned.2.2

/-! ## A whole reconcile -/

/-- Whatever it is answered, a reconcile keeps to its conduct. -/
theorem reconcile_upholds [DecidableEq σ] (c : Controller σ) (key : Key) :
    (c.reconcile key).Upholds (c.conduct key) anyEnd [] := by
  rw [reconcile]
  rw [Attempt.upholds_bind, Attempt.upholds_read]
  refine ⟨⟨rfl, rfl⟩, fun answer fits => ?_⟩
  obtain fault | _ | r := answer
  · exact trivial
  · exact trivial
  have own : r.key = key := fits r rfl
  simp only [Attempt.Onward]
  split
  case isTrue requested => exact reconcileDeletion_upholds own requested
  case isFalse stays =>
    exact reconcilePresent_upholds own (Bool.eq_false_iff.mpr stays)

end Controller

end Steward
