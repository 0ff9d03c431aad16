import Steward.Proofs.Calls
import Steward.Proofs.Scope

/-!
# What a result says

A reconcile that returns without a fault says in which status it leaves its record, and when to
look again.  As long as nobody else writes the record, that status is the stored one, whether it
had to be written or was there before.  A result without a status says that there is no record
left, or that what is left is to be deleted and waits for others.
-/

namespace Steward

open Deed Controller Scene

variable {σ : Type} {c : Controller σ}

/-! ## What was decided -/

/-- What a reconcile decides for the record that it read as `first`. -/
inductive Controller.Decides (c : Controller σ) (first : Record σ) (deeds : List (Deed σ)) :
    Transition → Prop where
  | removal {t : Transition} (requested : first.metadata.isDeletionRequested = true)
      (concludes : c.Concludes (c.permissions first) first true (endings deeds) t) :
      Decides c first deeds t
  | upkeep {t : Transition} (stays : first.metadata.isDeletionRequested = false)
      (resolves : c.Resolves (c.permissions first) (c.secured first) deeds t) :
      Decides c first deeds t

/-- The manager answered that the resource is as it should be. -/
inductive Ended.Succeeds : Ended → Prop where
  | verified (payload : Option Payload) : Succeeds ⟨.verify, some (.ok ⟨.ready, payload⟩)⟩
  | created (payload : Option Payload) : Succeeds ⟨.create, some (.ok ⟨.succeeded, payload⟩)⟩
  | updated (payload : Option Payload) : Succeeds ⟨.update, some (.ok ⟨.succeeded, payload⟩)⟩

namespace Controller

variable {permissions : Permissions} {first r : Record σ} {deleting : Bool} {ended : List Ended}
variable {deeds : List (Deed σ)} {t : Transition} {after : Option (Record σ)} {outcome : Outcome}

/-- Success is concluded only from an answer that says so. -/
theorem Concludes.succeeds (concludes : c.Concludes permissions r deleting ended t)
    (succeeded : t.phase = .succeeded) : ∃ e ∈ ended, e.Succeeds := by
  cases concludes with
  | invalid | waits | denied | probeFailed => cases succeeded
  | created due answer =>
      obtain message | ⟨_ | _ | _, payload⟩ := answer
      · cases succeeded
      · exact ⟨_, List.mem_cons_self, .created payload⟩
      · cases succeeded
      · cases succeeded
  | updated due answer =>
      obtain message | ⟨_ | _ | _, payload⟩ := answer
      · cases succeeded
      · exact ⟨_, List.mem_cons_self, .updated payload⟩
      · cases succeeded
      · cases succeeded
  | settled due verdict =>
      have succeeded : Transition.phase _ = .succeeded := succeeded
      obtain ⟨_, progress | failed | ⟨rfl, _⟩⟩ := ofCondition_eq_settle verdict
      · cases progress.symm.trans succeeded
      · cases failed.symm.trans succeeded
      · exact ⟨_, List.mem_cons_self, .verified _⟩
  | deleted due answer progress =>
      obtain message | _ | _ | _ := answer <;> cases progress <;> cases succeeded
  | polled due answer progress =>
      generalize DeletionProgress.ofProbe _ answer = reached at progress
      cases reached <;> cases progress <;> cases succeeded

theorem Decides.succeeds (decides : c.Decides first deeds t) (succeeded : t.phase = .succeeded) :
    ∃ e ∈ endings deeds, e.Succeeds := by
  cases decides with
  | removal _ concludes => exact concludes.succeeds succeeded
  | upkeep _ resolves =>
      cases resolves with
      | invalid | waits => cases succeeded
      | drives _ concludes => exact concludes.succeeds succeeded

/-- A status in the outcome is stored, and it is what was decided. -/
theorem Settles.decided (settles : c.Settles first deeds after outcome) {status : Status}
    (given : outcome.status = some status) :
    ∃ t w, c.Decides first deeds t ∧ after = some w ∧ w.status = status ∧
      status = t.apply first.status ∧ outcome.requeueAfter = some (c.requeueAfter t.phase) := by
  cases settles with
  | free | released => cases given
  | @deletes t w requested _ concludes stored made =>
      cases given
      exact ⟨t, w, .removal requested concludes, stored, rfl, made, rfl⟩
  | @stays t w stays resolves stored made =>
      cases given
      exact ⟨t, w, .upkeep stays resolves, stored, rfl, made, rfl⟩

/-- Where the outcome has no status, nothing is left of the record, or it is to be deleted and the
finalizer is gone. -/
theorem Settles.freed (settles : c.Settles first deeds after outcome)
    (silent : outcome.status = none) :
    outcome = .finished ∧
      ∀ w, after = some w → w.metadata.isDeletionRequested = true ∧ ¬ c.Guards w := by
  cases settles with
  | deletes | stays => cases silent
  | free requested unguarded _ kept =>
      refine ⟨rfl, fun w left => ?_⟩
      cases kept.symm.trans left
      exact ⟨requested, unguarded⟩
  | released requested _ _ freed =>
      refine ⟨rfl, fun w left => ?_⟩
      rw [freed, Record.landed] at left
      split at left <;> cases left
      exact ⟨requested, Bool.eq_false_iff.mp (first.metadata.hasFinalizer_removeFinalizer _)⟩

end Controller

namespace Scene

variable [DecidableEq σ] {key : Key} {may : Custom σ} {start store : Store σ}
variable {past : List (Happening σ)} {outcome : Outcome}

/-- Where there was no record there is nothing to say. -/
theorem Visit.finished_of_absent
    (visit : Visit c key may start past ⟨store, .running (.done (.ok outcome))⟩)
    (filed : start.Filed) (alone : Alone key may) (absent : start.records[key]? = none) :
    outcome = .finished ∧ store.records[key]? = none := by
  obtain ⟨_, after⟩ := visit.alone filed alone
  have unread {first : Record σ} : .asked (.read key) (.ok (some first)) ∉ sitting past :=
    fun read => nomatch (visit.read_eq filed alone read).trans absent
  cases visit.ends filed (c.reconcile_accounts key) with
  | absent read =>
      rw [read] at after
      exact ⟨rfl, after.trans absent⟩
  | free _ _ read =>
      rw [read] at unread
      exact absurd List.mem_cons_self unread
  | released read | deletes read | stays read => exact absurd read unread

/-- A reconcile that is alone with its record and returns without a fault.  If its outcome has a
status, the stored record has that very status; it is what was decided for the record, with the
decided message cut off after 512 characters, and the delay is the one for its phase.  If it has
none, there is no delay either, and there is no record, or one that is to be deleted and does not
carry the finalizer.  Success is in the outcome only if the manager just answered so. -/
theorem outcome_persisted
    (visit : Visit c key may start past ⟨store, .running (.done (.ok outcome))⟩)
    (filed : start.Filed) (alone : Alone key may) :
    (∀ status, outcome.status = some status →
      (∃ w, store.records[key]? = some w ∧ w.status = status) ∧
      ∃ first t, start.records[key]? = some first ∧ c.Decides first (sitting past) t ∧
        status = t.apply first.status ∧ status.phase = some t.phase ∧
        status.message.toList = t.message.toList.take 512 ∧ status.message.length ≤ 512 ∧
        outcome.requeueAfter = some (match t.phase with
          | .pending | .inProgress => c.intervals.requeueAfter
          | .succeeded => c.intervals.requeueAfterSuccess
          | .failed => c.intervals.requeueAfterFailure)) ∧
    (outcome.status = none →
      outcome.requeueAfter = none ∧
      ∀ w, store.records[key]? = some w → w.metadata.isDeletionRequested = true ∧
        c.definition.finalizer ∉ w.metadata.finalizers) ∧
    (outcome.phase = some .succeeded → ∃ ended ∈ endings (sitting past), ended.Succeeds) := by
  cases stored : start.records[key]? with
  | none =>
      obtain ⟨rfl, gone⟩ := visit.finished_of_absent filed alone stored
      refine ⟨nofun, fun _ => ⟨rfl, fun w left => ?_⟩, nofun⟩
      cases gone.symm.trans left
  | some first =>
      have settles := visit.settles filed alone stored
      refine ⟨fun status given => ?_, fun silent => ?_, fun succeeded => ?_⟩
      · obtain ⟨t, w, decides, left, same, made, delay⟩ := settles.decided given
        have message : status.message = clipped t.message := by
          rw [made, t.message_apply]
        refine ⟨⟨w, left, same⟩, first, t, rfl, decides, made, ?_, ?_, ?_, delay⟩
        · rw [made, phase_apply]
        · rw [message, clipped, String.toList_ofList, messageLimit]
        · rw [message]
          exact length_clipped t.message
      · obtain ⟨rfl, freed⟩ := settles.freed silent
        refine ⟨rfl, fun w left => ?_⟩
        obtain ⟨requested, unguarded⟩ := freed w left
        exact ⟨requested, fun listed => unguarded (List.contains_iff_mem.mpr listed)⟩
      · obtain ⟨status, given, phase⟩ := Option.bind_eq_some_iff.mp succeeded
        obtain ⟨t, w, decides, _, _, made, _⟩ := settles.decided given
        rw [made, phase_apply] at phase
        exact decides.succeeds (Option.some.inj phase)

/-- The sample record after its resource was found ready. -/
def readySample : Record Plain :=
  { guardedSample with
    status :=
      { phase := some .succeeded, message := "resource is ready", operation := some .create } }

/-- A record that is to be deleted, but whose resource is not, and that another finalizer keeps. -/
def sharedSample : Record Plain :=
  { sampleRecord with
    metadata :=
      { key := sampleKey
        annotations := (∅ : Annotations).insert sample.permissionKey "CU"
        finalizers := ["a.finalizers.com", "backup"]
        deletionRequestedAt := some sampleInstant } }

/-- A record that is found ready once more, so that nothing is written, and one that is given up
while another finalizer keeps it. -/
theorem outcome_persisted_of_samples :
    (∃ past store outcome w,
      Visit sample sampleKey (fun _ op => op.Spares sampleKey) (.only readySample) past
        ⟨store, .running (.done (.ok outcome))⟩ ∧
      outcome.phase = some .succeeded ∧ outcome.requeueAfter = some 15000 ∧
      (∀ deed ∈ sitting past, deed.stirs = false) ∧
      store.records[sampleKey]? = some w ∧ outcome.status = some w.status ∧
      ∃ ended ∈ endings (sitting past), ended.Succeeds) ∧
    ∃ past store outcome w,
      Visit sample sampleKey (fun _ op => op.Spares sampleKey) (.only sharedSample) past
        ⟨store, .running (.done (.ok outcome))⟩ ∧
      outcome.status = none ∧ outcome.requeueAfter = none ∧
      store.records[sampleKey]? = some w ∧ w.metadata.finalizers = ["backup"] ∧
      w.metadata.isDeletionRequested = true := by
  constructor
  · have read : Visit sample sampleKey (fun _ op => op.Spares sampleKey) (.only readySample) _ _ :=
      .did .begin (.ask (.read _ sampleKey))
    have ended := (read.did .issue).did (.finish .verify (some (.ok ⟨.ready, none⟩)))
    obtain ⟨persisted, _, succeeds⟩ :=
      outcome_persisted ended (Store.only_filed _) fun _ _ allowed => allowed
    obtain ⟨⟨w, after, same⟩, _⟩ := persisted _ rfl
    exact ⟨_, _, _, w, ended, rfl, rfl, by decide, after, congrArg some same.symm, succeeds rfl⟩
  · have read : Visit sample sampleKey (fun _ op => op.Spares sampleKey) (.only sharedSample) _ _ :=
      .did .begin (.ask (.read _ sampleKey))
    have ended := ((read.did .report).did (.ask (.writeMetadata _ _))).did .report
    obtain ⟨_, freed, _⟩ := outcome_persisted ended (Store.only_filed _) fun _ _ allowed => allowed
    obtain ⟨delay, freed⟩ := freed rfl
    exact ⟨_, _, _, _, ended, rfl, delay, rfl, rfl, (freed _ rfl).1⟩

end Scene

end Steward
