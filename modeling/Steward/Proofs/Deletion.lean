import Steward.Proofs.Finalizer

/-!
# Why a finalizer goes

A status that names a delete as the last operation vouches for it: the delete was issued during
the life of this record.  For records are filed with an empty status, others do not write statuses,
and the engine writes down a delete only after it issued one or when the status that it read said
so already.  So whichever way the engine comes to take its finalizer off a record that may be
deleted, a delete was issued for it.
-/

namespace Steward

open Deed Scene

variable {σ : Type} {c : Controller σ} {key : Key}

namespace Controller

/-- New records have an empty status, and nobody else writes the status of the record. -/
def LeavesStatus (key : Key) : StoreOp σ → Prop
  | .create r => r.key = key → r.status = {}
  | .updateStatus r _ => r.key ≠ key
  | _ => True

/-- Others leave the finalizer and the status to the engine. -/
def LeavesAlone (c : Controller σ) (key : Key) : Custom σ := fun s op =>
  c.KeepsFinalizer key s op ∧ LeavesStatus key op

/-- A delete was issued for the record that was filed under the key last. -/
def HasIssuedDelete (c : Controller σ) (key : Key) (past : List (Happening σ)) : Prop :=
  ∃ r, .did (.asked (.read key) (.ok (some r))) ∈ life key past ∧
    .did (.issued .delete (c.resourceId r) r.spec) ∈ life key past

theorem HasIssuedDelete.next {past : List (Happening σ)} {happening : Happening σ}
    (issued : c.HasIssuedDelete key past) (unborn : happening.bears key = false) :
    c.HasIssuedDelete key (happening :: past) := by
  obtain ⟨r, read, delete⟩ := issued
  rw [HasIssuedDelete, life_cons past unborn]
  exact ⟨r, List.mem_cons_of_mem _ read, List.mem_cons_of_mem _ delete⟩

end Controller

/-- The status of a record names a delete as the last operation. -/
def Record.MarkedDeleted (r : Record σ) : Prop := r.status.operation = some .delete

/-! ## Where a mark comes from -/

namespace Store

open Controller

variable [DecidableEq σ] {s t : Store σ}

theorem Becomes.of_markedDeleted {op : StoreOp σ} {before : Option (Record σ)} {r : Record σ}
    (becomes : Becomes key op before (some r)) (marked : r.MarkedDeleted) :
    (∃ stored, before = some stored ∧ stored.MarkedDeleted) ∨
    (∃ incoming, op = .create incoming ∧ incoming.key = key ∧ incoming.MarkedDeleted) ∨
    ∃ incoming latest, op = .updateStatus incoming latest ∧ incoming.key = key ∧
      incoming.MarkedDeleted := by
  generalize after : some r = found at becomes
  cases becomes with
  | unchanged => exact .inl ⟨r, after.symm, marked⟩
  | @created incoming own =>
      cases after
      exact .inr (.inl ⟨incoming, rfl, own, marked⟩)
  | @respecified stored =>
      cases after
      exact .inl ⟨stored, rfl, marked⟩
  | @annotated stored =>
      cases after
      exact .inl ⟨stored, rfl, marked⟩
  | @marked stored =>
      cases after
      exact .inl ⟨stored, rfl, marked⟩
  | dropped => cases after
  | @updated stored =>
      split at after <;> cases after
      exact .inl ⟨stored, rfl, marked⟩
  | @statusUpdated stored incoming latest own =>
      split at after <;> cases after
      exact .inr (.inr ⟨incoming, latest, rfl, own, marked⟩)

/-- What others do marks no record. -/
theorem Lawful.of_markedDeleted {op : StoreOp σ} {r : Record σ} (lawful : Lawful s op t)
    (leaves : LeavesStatus key op) (found : t.records[key]? = some r) (marked : r.MarkedDeleted) :
    ∃ stored, s.records[key]? = some stored ∧ stored.MarkedDeleted := by
  have becomes := lawful.becomes key
  rw [found] at becomes
  obtain before | ⟨incoming, rfl, own, named⟩ | ⟨_, _, rfl, own, _⟩ :=
    becomes.of_markedDeleted marked
  · exact before
  · rw [Record.MarkedDeleted, leaves own] at named
    cases named
  · exact absurd own leaves

/-- Of the engine's questions only the write of a status can mark a record. -/
theorem Answers.of_markedDeleted {query : Query σ} {answer : query.Answer}
    (answers : s.Answers query answer t) (filed : s.Filed) {r : Record σ}
    (found : t.records[key]? = some r) (marked : r.MarkedDeleted) :
    (∃ stored, s.records[key]? = some stored ∧ stored.MarkedDeleted) ∨
    ∃ incoming, query = .writeStatus incoming ∧ incoming.MarkedDeleted := by
  cases answers with
  | read k =>
      rw [get_records] at found
      exact .inl ⟨r, found, marked⟩
  | readStatus => exact .inl ⟨r, found, marked⟩
  | writeMetadata incoming =>
      have becomes := (update_lawful filed incoming false).becomes key
      simp only [Bool.false_eq_true, if_false, found] at becomes
      obtain before | ⟨_, same, _⟩ | ⟨_, _, same, _⟩ := becomes.of_markedDeleted marked
      · exact .inl before
      · cases same
      · cases same
  | writeStatus incoming =>
      have becomes := (updateStatus_lawful filed incoming false).becomes key
      simp only [Bool.false_eq_true, if_false, found] at becomes
      obtain before | ⟨_, same, _⟩ | ⟨_, _, same, _, named⟩ := becomes.of_markedDeleted marked
      · exact .inl before
      · cases same
      · cases same
        exact .inr ⟨incoming, rfl, named⟩

end Store

namespace Scene

open Controller

variable [DecidableEq σ] {may : Custom σ}
variable {past : List (Happening σ)} {s t : Scene σ} {happening : Happening σ}

/-- Marks vouch for deletes: that of the stored record, and that of the record in hand. -/
structure Vouched (c : Controller σ) (key : Key) (past : List (Happening σ)) (s : Store σ) :
    Prop where
  stored : ∀ r, s.records[key]? = some r → r.MarkedDeleted → c.HasIssuedDelete key past
  held : ∀ r, inHand (sitting past) = some r → c.Guards r → r.MarkedDeleted →
    c.HasIssuedDelete key past

omit [DecidableEq σ] in
/-- A delete that this reconcile issued for a record with the finalizer belongs to its life. -/
theorem Anchored.hasIssuedDelete {s : Store σ} (anchored : Anchored c key past s) {r : Record σ}
    (issued : c.DeleteIssued key r (sitting past)) (guards : c.Guards r) :
    c.HasIssuedDelete key past :=
  ⟨r, anchored.alive _ issued.1 (.inr ⟨r, rfl, guards⟩),
    anchored.alive _ issued.2 (.inl ⟨_, _, _, rfl⟩)⟩

omit [DecidableEq σ] in
/-- A status that the engine writes is vouched for before it is written. -/
theorem Vouched.written {s : Store σ} (vouched : Vouched c key past s)
    (anchored : ∀ r, inHand (sitting past) = some r → c.Guards r → Anchored c key past s)
    {incoming : Record σ} (asks : (c.conduct key).asks (sitting past) (.writeStatus incoming))
    (marked : incoming.MarkedDeleted) : c.HasIssuedDelete key past := by
  obtain ⟨held, hand, _, records⟩ := asks
  obtain before | issued := records.marker marked
  · exact vouched.held held hand records.guards before
  · exact (anchored held hand records.guards).hasIssuedDelete issued records.guards

/-- Whatever happens, the mark of the stored record stays vouched for. -/
theorem Step.stored_vouched (run : Run c key may past s) (step : Step c key may s happening t)
    (leaves : ∀ s op, may s op → c.LeavesAlone key s op) (vouched : Vouched c key past s.store)
    {r : Record σ} (found : t.store.records[key]? = some r) (marked : r.MarkedDeleted) :
    c.HasIssuedDelete key (happening :: past) := by
  have kept {stored : Record σ} (before : s.store.records[key]? = some stored)
      (named : stored.MarkedDeleted) : c.HasIssuedDelete key (happening :: past) :=
    (vouched.stored stored before named).next (step.bears_eq_false before)
  have upholds := run.upholds
  cases step with
  | outside now op allowed =>
      obtain ⟨stored, before, named⟩ :=
        (Store.perform_lawful run.filed now op).of_markedDeleted (leaves _ _ allowed).2 found marked
      exact kept before named
  | ask answers =>
      obtain ⟨stored, before, named⟩ | ⟨incoming, rfl, named⟩ :=
        answers.of_markedDeleted run.filed found marked
      · exact kept before named
      · have anchored := run.anchored fun s op allowed => (leaves s op allowed).1
        exact (vouched.written anchored upholds.1 named).next rfl
  | begin | issue | finish | report | stop => exact kept found marked

theorem Run.vouched (run : Run c key may past s)
    (leaves : ∀ s op, may s op → c.LeavesAlone key s op) : Vouched c key past s.store := by
  induction run with
  | start =>
      refine ⟨fun r found => ?_, fun r hand => nomatch hand⟩
      simp at found
  | @step past s t happening run step ih =>
      have stored : ∀ r, t.store.records[key]? = some r → r.MarkedDeleted →
          c.HasIssuedDelete key (happening :: past) :=
        fun r found marked => step.stored_vouched run leaves ih found marked
      refine ⟨stored, fun r hand guards marked => ?_⟩
      -- A record that was in hand before was vouched for then; one that was just shown is stored.
      obtain ⟨old, _⟩ | ⟨query, answer, rfl, shown, answers, asks⟩ := run.hand_cases step hand
      · have anchored := run.anchored (fun s op allowed => (leaves s op allowed).1) r old guards
        obtain ⟨_, found, _⟩ := anchored.guarded
        exact (ih.held r old guards marked).next (step.bears_eq_false found)
      · have own := c.key_of_shown asks (answers.fits run.filed) shown
        have found := answers.shows run.filed shown guards.finalizers_ne_nil
        exact stored r (own ▸ found) marked

/-- The step that loses the finalizer is the engine's write after it read the record with deletion
requested. -/
theorem Step.releases (run : Run c key may past s) (step : Step c key may s happening t)
    (keeps : ∀ s op, may s op → c.KeepsFinalizer key s op) (guarded : c.Guarded key s.store)
    (lost : ¬ c.Guarded key t.store) :
    ∃ r incoming answer, happening = .did (.asked (.writeMetadata incoming) answer) ∧
      inHand (sitting past) = some r ∧ c.Releases key (sitting past) r incoming := by
  have takes : c.TakesFinalizer happening :=
    not_not.mp fun kept => lost (step.guarded keeps run.filed guarded kept)
  have upholds := run.upholds
  unfold TakesFinalizer at takes
  split at takes
  case h_2 => exact takes.elim
  case h_1 incoming answer =>
    cases step with
    | ask answers =>
        obtain ⟨r, hand, _, secures | releases⟩ := upholds.1
        · rw [secures.written] at takes
          exact absurd (r.metadata.hasFinalizer_addFinalizer _) takes
        · exact ⟨r, incoming, _, rfl, hand, releases⟩

/-- As long as others leave finalizer and status alone, the finalizer is lost only when the engine
takes it off a record that it read with deletion requested in the same reconcile, and it has one of
three reasons: the annotation that it read does not permit to delete, the delete that it issued was
answered to have succeeded, or the status that it read named a delete and the probe found nothing.
If the annotation permits to delete, a delete was issued for the record. -/
theorem finalizer_lost_for_reason (run : Run c key (c.LeavesAlone key) past s)
    (step : Step c key (c.LeavesAlone key) s happening t) (guarded : c.Guarded key s.store)
    (lost : ¬ c.Guarded key t.store) :
    ∃ r incoming answer,
      happening = .did (.asked (.writeMetadata incoming) answer) ∧
      incoming = { r with metadata := r.metadata.removeFinalizer c.definition.finalizer } ∧
      .asked (.read key) (.ok (some r)) ∈ sitting past ∧
      r.metadata.isDeletionRequested = true ∧
      c.ReleaseReason key r (sitting past) ∧
      (c.PermitsDelete r → c.HasIssuedDelete key past) := by
  have leaves : ∀ s op, c.LeavesAlone key s op → c.LeavesAlone key s op := fun _ _ h => h
  have keeps := fun s op (allowed : c.LeavesAlone key s op) => allowed.1
  obtain ⟨r, incoming, answer, same, hand, releases⟩ := step.releases run keeps guarded lost
  refine ⟨r, incoming, answer, same, releases.written, releases.read, releases.requested,
    releases.reason, fun permits => ?_⟩
  cases releases.reason with
  | denied denied => exact absurd permits denied
  | deleted issued _ =>
      exact (run.anchored keeps r hand releases.guards).hasIssuedDelete issued releases.guards
  | gone marked => exact (run.vouched leaves).held r hand releases.guards marked

/-- Deletion is requested during a create that times out.  The next reconcile issues a delete, which
takes a while, and the one after finds the resource gone and takes the finalizer off. -/
theorem finalizer_lost_for_reason_of_sample :
    ∃ past s happening t,
      Run sample sampleKey (sample.LeavesAlone sampleKey) past s ∧
      Step sample sampleKey (sample.LeavesAlone sampleKey) s happening t ∧
      ∃ r : Record Plain, r.metadata.isDeletionRequested = true ∧ sample.PermitsDelete r ∧
        sample.ReleaseReason sampleKey r (sitting past) ∧
        sample.HasIssuedDelete sampleKey past := by
  have created : Run sample sampleKey (sample.LeavesAlone sampleKey) _ _ :=
    .step .start (.outside sampleInstant (.create sampleRecord) ⟨nofun, fun _ => rfl⟩)
  have secured := ((created.step .begin).step (.ask (.read _ sampleKey))).step
    (.ask (.writeMetadata _ _))
  have requested := (secured.step .issue).step
    (.outside sampleInstant (.requestDeletion sampleKey) ⟨nofun, trivial⟩)
  have overrun := (requested.step (.finish .create none)).step .stop
  have issued := ((overrun.step .begin).step (.ask (.read _ sampleKey))).step .issue
  have awaited := issued.step (.finish .delete (some (.ok .awaitingVerification)))
  have marked := (awaited.step (.ask (.writeStatus _ _))).step .stop
  have probing := ((marked.step .begin).step (.ask (.read _ sampleKey))).step .issue
  have probed := probing.step (.finish .verify (some (.ok ⟨.missing, none⟩)))
  obtain ⟨r, _, _, _, _, read, requested, reason, issued⟩ :=
    finalizer_lost_for_reason probed (.ask (.writeMetadata _ _)) (by decide +kernel)
      (by decide +kernel)
  replace read : _ ∈ [_, _, _] := read
  rcases read with _ | ⟨_, _ | ⟨_, _ | ⟨_, ⟨⟩⟩⟩⟩
  exact ⟨_, _, _, _, probed, .ask (.writeMetadata _ _), _, requested, rfl, reason, issued rfl⟩

end Scene

end Steward
