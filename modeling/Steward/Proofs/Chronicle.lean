import Steward.Proofs.Visit

/-!
# Events and the writes that they report

A reconcile writes a status at most once, it reports what was changed right after the write that
changed it, and then it is over: it neither calls nor asks for anything more.  There is one event
that comes before its write: that a record is released although its resource may not be deleted is
reported first, and if the store then refuses the release, the event stands for a change that was
not made.
-/

namespace Steward

open Deed Scene

variable {σ : Type} {c : Controller σ} {key : Key}

namespace Controller

/-- A status is stored, or the finalizer taken away. -/
def persists (c : Controller σ) : Deed σ → Bool
  | .asked (.writeStatus _) (.ok _) => true
  | .asked (.writeMetadata incoming) (.ok _) =>
      !incoming.metadata.hasFinalizer c.definition.finalizer
  | _ => false

/-- Something was changed for good, or an event reported. -/
def tells (c : Controller σ) : Deed σ → Bool
  | .reported _ => true
  | deed => c.persists deed

/-- Nothing was told so far. -/
def Silent (c : Controller σ) (deeds : List (Deed σ)) : Prop := ∀ deed ∈ deeds, c.tells deed = false

variable {deeds : List (Deed σ)} {r : Record σ}

theorem tells_of_persists {deed : Deed σ} (persists : c.persists deed = true) :
    c.tells deed = true := by
  cases deed with
  | reported => rfl
  | asked | issued | ended => exact persists

theorem Silent.cons (silent : c.Silent deeds) {deed : Deed σ} (quiet : c.tells deed = false) :
    c.Silent (deed :: deeds) :=
  List.forall_mem_cons.mpr ⟨quiet, silent⟩

theorem Silent.called (silent : c.Silent deeds) {call : Call} {ending : call.Ending} {id : String}
    {spec : σ} : c.Silent (.ended call ending :: .issued call id spec :: deeds) :=
  (silent.cons rfl).cons rfl

theorem Silent.unreported (silent : c.Silent deeds) {event : Event} : .reported event ∉ deeds :=
  fun reported => nomatch silent _ reported

theorem Silent.unchanged (silent : c.Silent deeds) : ∀ deed ∈ deeds, c.persists deed = false :=
  fun deed done => Bool.eq_false_iff.mpr fun persists =>
    Bool.eq_false_iff.mp (silent deed done) (tells_of_persists persists)

/-- The event that a record is released although its resource may not be deleted. -/
def skipped (c : Controller σ) (r : Record σ) : Event :=
  c.event r.key .normal "DeleteSkipped" (Permissions.deniedMessage .delete)

/-- The event that a record is released. -/
def freed (c : Controller σ) (r : Record σ) : Event :=
  c.event r.key .normal "Deleted" "finalizer removed"

/-- A record whose resource may not be deleted was read, and that it is given up has been
reported. -/
structure GivesUp (c : Controller σ) (key : Key) (first : Record σ) (deeds : List (Deed σ)) :
    Prop where
  requested : first.metadata.isDeletionRequested = true
  guards : c.Guards first
  denied : ¬ c.PermitsDelete first
  said : deeds = [.reported (c.skipped first), .asked (.read key) (.ok (some first))]

/-- Nothing was told before the release of `r`, or only that it is given up. -/
def Heralds (c : Controller σ) (key : Key) (r : Record σ) (deeds : List (Deed σ)) : Prop :=
  c.Silent deeds ∨ c.GivesUp key r deeds

/-- A reconcile that has told something neither calls nor writes any more, but for the release of a
record that is given up. -/
def reserve (c : Controller σ) (key : Key) : Conduct σ where
  asks
    | deeds, .writeStatus _ => c.Silent deeds
    | deeds, .writeMetadata _ => ∃ r, c.Heralds key r deeds
    | _, _ => True
  calls deeds _ _ _ := c.Silent deeds

/-- All that a reconcile that has ended may have told, and how it then ended. -/
inductive Chronicle (c : Controller σ) (key : Key) :
    List (Deed σ) → Except Fault Outcome → Prop where
  | silent {deeds : List (Deed σ)} {result : Except Fault Outcome} (silent : c.Silent deeds) :
      Chronicle c key deeds result
  | stated {older : List (Deed σ)} {incoming w : Record σ} {outcome : Outcome}
      (silent : c.Silent older) :
      Chronicle c key (.asked (.writeStatus incoming) (.ok w) :: older) (.ok outcome)
  | announced {older : List (Deed σ)} {r w : Record σ} {status : Status} {outcome : Outcome}
      (silent : c.Silent older) (severity : Severity) (reason : String) :
      Chronicle c key
        (.reported (c.event r.key severity reason status.message) ::
          .asked (.writeStatus { r with status }) (.ok w) :: older) (.ok outcome)
  | released {older : List (Deed σ)} {r w : Record σ} (heralds : c.Heralds key r older) :
      Chronicle c key
        (.reported (c.freed r) :: .asked (.writeMetadata
          { r with metadata := r.metadata.removeFinalizer c.definition.finalizer }) (.ok w) ::
            older)
        (.ok .finished)
  | unreleased {older : List (Deed σ)} {r : Record σ} {fault : Fault}
      (givesUp : c.GivesUp key r older) :
      Chronicle c key
        (.asked (.writeMetadata
          { r with metadata := r.metadata.removeFinalizer c.definition.finalizer })
          (.error fault) :: older) (.error fault)

theorem commit_reserved [DecidableEq σ] (silent : c.Silent deeds) (t : Transition) :
    (c.commit r t).Upholds (c.reserve key) (c.Chronicle key) deeds := by
  rw [commit]
  by_cases same : t.apply r.status = r.status
  · rw [if_neg (not_not_intro same)]
    exact .silent silent
  rw [if_pos same, Attempt.upholds_bind, Attempt.upholds_writeStatus]
  refine ⟨silent, fun answer _ => ?_⟩
  obtain fault | w := answer
  · exact .silent (silent.cons rfl)
  rw [Attempt.Onward]
  split
  case h_1 severity reason _ =>
    rw [Attempt.upholds_bind, Attempt.upholds_report]
    exact .announced silent severity reason
  case h_2 => exact .stated silent

/-! ## A record that stays -/

theorem apply_reserved (silent : c.Silent deeds) (operation : Mutation)
    (permissions : Permissions) :
    (c.apply operation r permissions).Upholds (c.reserve key) (fun deeds _ => c.Silent deeds)
      deeds := by
  rw [apply]
  split
  · exact silent
  split
  · rw [Attempt.upholds_bind, call, Attempt.upholds_call]
    exact ⟨silent, silent.called, fun _ => silent.called⟩
  · rw [Attempt.upholds_bind, call, Attempt.upholds_call]
    exact ⟨silent, silent.called, fun _ => silent.called⟩

theorem drive_reserved (silent : c.Silent deeds) (permissions : Permissions) :
    (c.drive r permissions).Upholds (c.reserve key) (fun deeds _ => c.Silent deeds) deeds := by
  rw [drive]
  split
  · exact apply_reserved silent .create permissions
  rw [Attempt.upholds_bind, call, Attempt.upholds_call]
  refine ⟨silent, silent.called, fun answer => ?_⟩
  obtain message | ⟨found, payload⟩ := answer
  · exact silent.called
  simp only [Attempt.Onward]
  split
  · exact silent.called
  · exact apply_reserved silent.called _ permissions

theorem ensureFinalizer_reserved (silent : c.Silent deeds) :
    (c.ensureFinalizer r).Upholds (c.reserve key) (fun deeds _ => c.Silent deeds) deeds := by
  rw [ensureFinalizer]
  split
  · exact silent
  · rw [Attempt.upholds_writeMetadata]
    refine ⟨⟨r, .inl silent⟩, fun answer _ => silent.cons ?_⟩
    obtain fault | w := answer
    · rfl
    · exact congrArg not (r.metadata.hasFinalizer_addFinalizer c.definition.finalizer)

theorem reconcilePresent_reserved [DecidableEq σ] (silent : c.Silent deeds)
    (permissions : Permissions) :
    (c.reconcilePresent r permissions).Upholds (c.reserve key) (c.Chronicle key) deeds := by
  rw [reconcilePresent, Attempt.upholds_bind]
  refine (ensureFinalizer_reserved silent).imp fun deeds result silent => ?_
  obtain fault | r := result
  · exact .silent silent
  rw [Attempt.Onward]
  split
  case h_1 => exact commit_reserved silent _
  case h_2 => exact .silent silent
  rw [Attempt.upholds_bind]
  -- To look up statuses tells nothing.
  refine check_upholds c.Silent (fun _ _ => trivial) (fun _ _ _ silent => silent.cons rfl)
    (fun deeds result silent => ?_) _ silent
  obtain fault | readiness := result
  · exact .silent silent
  rw [Attempt.Onward]
  split
  · rw [Attempt.upholds_bind]
    refine (drive_reserved silent permissions).imp fun deeds result silent => ?_
    obtain fault | t := result
    · exact .silent silent
    · exact commit_reserved silent t
  · exact commit_reserved silent _

/-! ## A record that is to be deleted -/

theorem release_reserved (heralds : c.Heralds key r deeds) (guards : c.Guards r) :
    (c.release r).Upholds (c.reserve key) (c.Chronicle key) deeds := by
  have guards : r.metadata.hasFinalizer c.definition.finalizer = true := guards
  rw [release]
  simp only [guards, if_true]
  rw [Attempt.upholds_bind, Attempt.upholds_writeMetadata]
  refine ⟨⟨r, heralds⟩, fun answer _ => ?_⟩
  obtain fault | w := answer
  · obtain silent | givesUp := heralds
    · exact .silent (silent.cons rfl)
    · exact .unreleased givesUp
  rw [Attempt.Onward, Attempt.upholds_bind, Attempt.upholds_report]
  exact .released heralds

theorem advanceDeletion_reserved [DecidableEq σ] (silent : c.Silent deeds) (guards : c.Guards r)
    (progress : DeletionProgress) :
    (c.advanceDeletion r progress).Upholds (c.reserve key) (c.Chronicle key) deeds := by
  unfold advanceDeletion
  cases progress with
  | confirmed => exact release_reserved (.inl silent) guards
  | inProgress | reissue | failed => exact commit_reserved silent _

theorem issueDelete_reserved [DecidableEq σ] (silent : c.Silent deeds) (guards : c.Guards r) :
    (c.issueDelete r).Upholds (c.reserve key) (c.Chronicle key) deeds := by
  rw [issueDelete, Attempt.upholds_bind, call, Attempt.upholds_call]
  refine ⟨silent, .silent silent.called, fun answer => ?_⟩
  cases answer <;> exact advanceDeletion_reserved silent.called guards _

theorem verifyDelete_reserved [DecidableEq σ] (silent : c.Silent deeds) (guards : c.Guards r) :
    (c.verifyDelete r).Upholds (c.reserve key) (c.Chronicle key) deeds := by
  rw [verifyDelete, Attempt.upholds_bind, call, Attempt.upholds_call]
  refine ⟨silent, .silent silent.called, fun answer => ?_⟩
  obtain message | ⟨found, payload⟩ := answer
  · exact advanceDeletion_reserved silent.called guards _
  simp only [Attempt.Onward]
  split
  · exact issueDelete_reserved silent.called guards
  · exact advanceDeletion_reserved silent.called guards _

theorem reconcileDeletion_reserved [DecidableEq σ]
    (requested : r.metadata.isDeletionRequested = true) :
    (c.reconcileDeletion r
        (Permissions.ofAnnotations r.metadata.annotations c.permissionKey)).Upholds
      (c.reserve key) (c.Chronicle key) [.asked (.read key) (.ok (some r))] := by
  have silent : c.Silent [.asked (.read key) (.ok (some r))] := List.forall_mem_singleton.mpr rfl
  have planned := plannedFor_next c r
  rw [reconcileDeletion]
  split <;> rename_i plan <;> rw [plan] at planned
  · exact .silent silent
  · rw [Attempt.upholds_bind, Attempt.upholds_report]
    exact release_reserved (.inr ⟨requested, planned.1, planned.2, rfl⟩) planned.1
  · exact issueDelete_reserved silent planned.1
  · exact verifyDelete_reserved silent planned.1

/-! ## A whole reconcile -/

/-- Whatever it is answered, a reconcile tells only what its chronicle lists. -/
theorem reconcile_reserved [DecidableEq σ] (c : Controller σ) (key : Key) :
    (c.reconcile key).Upholds (c.reserve key) (c.Chronicle key) [] := by
  rw [reconcile, Attempt.upholds_bind, Attempt.upholds_read]
  refine ⟨trivial, fun answer _ => ?_⟩
  have silent : c.Silent [.asked (.read key) answer] := List.forall_mem_singleton.mpr rfl
  obtain fault | _ | r := answer
  · exact .silent silent
  · exact .silent silent
  simp only [Attempt.Onward]
  split
  case isTrue requested => exact reconcileDeletion_reserved requested
  case isFalse => exact reconcilePresent_reserved silent _

/-! ## What an event stands for -/

variable {result : Except Fault Outcome}

/-- The release of a record that was given up was refused. -/
structure Fails (c : Controller σ) (key : Key) (first : Record σ) (deeds : List (Deed σ))
    (result : Except Fault Outcome) : Prop where
  requested : first.metadata.isDeletionRequested = true
  guards : c.Guards first
  denied : ¬ c.PermitsDelete first
  refused : ∃ fault, result = .error fault ∧
    deeds = [.asked (.writeMetadata { first with
        metadata := first.metadata.removeFinalizer c.definition.finalizer }) (.error fault),
      .reported (c.skipped first), .asked (.read key) (.ok (some first))]

theorem persists_writeMetadata {incoming w : Record σ} :
    c.persists (.asked (.writeMetadata incoming) (.ok w)) = true ↔ ¬ c.Guards incoming := by
  simp [persists, Guards]

theorem persists_released (c : Controller σ) (r w : Record σ) :
    c.persists (.asked (.writeMetadata
      { r with metadata := r.metadata.removeFinalizer c.definition.finalizer }) (.ok w)) = true :=
  persists_writeMetadata.mpr (Bool.eq_false_iff.mp (r.metadata.hasFinalizer_removeFinalizer _))

theorem persists_cases {deed : Deed σ} (persists : c.persists deed = true) :
    (∃ incoming w, deed = .asked (.writeStatus incoming) (.ok w)) ∨
      ∃ incoming w, deed = .asked (.writeMetadata incoming) (.ok w) ∧ ¬ c.Guards incoming := by
  cases deed with
  | issued | ended | reported => cases persists
  | asked query answer =>
      cases query with
      | read | readStatus => cases persists
      | writeStatus incoming =>
          obtain fault | w := answer
          · cases persists
          · exact .inl ⟨incoming, w, rfl⟩
      | writeMetadata incoming =>
          obtain fault | w := answer
          · cases persists
          · exact .inr ⟨incoming, w, rfl, persists_writeMetadata.mp persists⟩

/-- An event comes with the write that it reports, unless a release was refused. -/
theorem Chronicle.accompanied (chronicle : c.Chronicle key deeds result) {event : Event}
    (reported : .reported event ∈ deeds) :
    (∃ deed ∈ deeds, c.persists deed = true) ∨
      ∃ first, event = c.skipped first ∧ c.Fails key first deeds result := by
  cases chronicle with
  | silent silent => exact absurd reported silent.unreported
  | stated silent => exact .inl ⟨_, List.mem_cons_self, rfl⟩
  | announced silent => exact .inl ⟨_, List.mem_cons_of_mem _ List.mem_cons_self, rfl⟩
  | released heralds =>
      exact .inl ⟨_, List.mem_cons_of_mem _ List.mem_cons_self, c.persists_released _ _⟩
  | @unreleased older r fault givesUp =>
      obtain ⟨requested, guards, denied, rfl⟩ := givesUp
      refine .inr ⟨r, ?_, requested, guards, denied, fault, rfl, rfl⟩
      obtain _ | ⟨_, _ | ⟨_, _ | ⟨_, ⟨⟩⟩⟩⟩ := reported
      rfl

/-- A reconcile that is cut short has changed nothing for good. -/
theorem Chronicle.unchanged {fault : Fault} (chronicle : c.Chronicle key deeds (.error fault)) :
    ∀ deed ∈ deeds, c.persists deed = false := by
  cases chronicle with
  | silent silent => exact silent.unchanged
  | unreleased givesUp =>
      rw [givesUp.said]
      exact List.forall_mem_cons.mpr ⟨rfl, List.forall_mem_cons.mpr
        ⟨rfl, List.forall_mem_singleton.mpr rfl⟩⟩

end Controller

namespace Scene

variable [DecidableEq σ] {may : Custom σ} {start store : Store σ}
variable {past : List (Happening σ)} {result : Except Fault Outcome}

/-- Whatever the record, the answers of the manager and of the store are, and whatever others do
meanwhile: each event of a reconcile that has ended comes with a write of the same reconcile that
went through, and one that is cut short has changed nothing and reports nothing.  There is one
exception.  A record that is to be deleted, whose resource may not be deleted, is reported as given
up before it is released, and the release may be refused. -/
theorem events_report_writes
    (visit : Visit c key may start past ⟨store, .running (.done result)⟩) (filed : start.Filed) :
    (∃ first, c.Fails key first (sitting past) result) ∨
    ((∀ event, .reported event ∈ sitting past → ∃ deed ∈ sitting past, c.persists deed = true) ∧
      ∀ fault, result = .error fault →
        (∀ deed ∈ sitting past, c.persists deed = false) ∧
          ∀ event, .reported event ∉ sitting past) := by
  have chronicle := visit.ends filed (c.reconcile_reserved key)
  by_cases fails : ∃ first, c.Fails key first (sitting past) result
  · exact .inl fails
  have accompanied : ∀ event, .reported event ∈ sitting past →
      ∃ deed ∈ sitting past, c.persists deed = true := by
    intro event reported
    obtain write | ⟨first, _, failed⟩ := chronicle.accompanied reported
    · exact write
    · exact absurd ⟨first, failed⟩ fails
  refine .inr ⟨accompanied, ?_⟩
  rintro fault rfl
  refine ⟨chronicle.unchanged, fun event reported => ?_⟩
  obtain ⟨deed, done, persists⟩ := accompanied event reported
  cases (chronicle.unchanged deed done).symm.trans persists

/-- A create that succeeds is reported after it was written down. -/
theorem events_report_writes_of_sample :
    ∃ past store outcome event,
      Visit sample sampleKey (fun _ _ => True) (.only guardedSample) past
        ⟨store, .running (.done (.ok outcome))⟩ ∧
      (Store.only guardedSample).Filed ∧ event.reason = "Applied" ∧
      .reported event ∈ sitting past ∧ ∃ deed ∈ sitting past, sample.persists deed = true := by
  have read : Visit sample sampleKey (fun _ _ => True) (.only guardedSample) _ _ :=
    .did .begin (.ask (.read _ sampleKey))
  have created := (read.did .issue).did (.finish .create (some (.ok ⟨.succeeded, none⟩)))
  have ended := (created.did (.ask (.writeStatus _ _))).did .report
  obtain ⟨_, _, _, _, _, cut, _⟩ | ⟨accompanied, _⟩ :=
    events_report_writes ended (Store.only_filed _)
  · cases cut
  · exact ⟨_, _, _, _, ended, Store.only_filed _, rfl, List.mem_cons_self,
      accompanied _ List.mem_cons_self⟩

/-- The sample record with the finalizer, whose resource may be created and updated only. -/
def withheldSample : Record Plain :=
  { guardedSample with
    metadata :=
      { guardedSample.metadata with
        annotations := (∅ : Annotations).insert sample.permissionKey "CU" } }

/-- The store fails when a record that was given up is to be released, and the release is done
again: the event is reported twice, the first time by a reconcile that changed nothing. -/
theorem skipped_event_repeats :
    ∃ older newer fault outcome s,
      Run sample sampleKey (fun _ _ => True)
        (.returned (.ok outcome) :: newer ++ .returned (.error fault) :: older) s ∧
      .reported (sample.skipped withheldSample) ∈ sitting older ∧
      (∀ deed ∈ sitting older, sample.persists deed = false) ∧
      .reported (sample.skipped withheldSample) ∈ sitting newer ∧
      ((sitting newer).filter sample.persists).length = 1 := by
  have created : Run sample sampleKey (fun _ _ => True) _ _ :=
    .step .start (.outside sampleInstant (.create withheldSample) trivial)
  have requested := created.step (.outside sampleInstant (.requestDeletion sampleKey) trivial)
  have given := ((requested.step .begin).step (.ask (.read _ sampleKey))).step .report
  have failing := given.step (.outside sampleInstant (.failNext 1) trivial)
  have refused := (failing.step (.ask (.writeMetadata _ _))).step .stop
  have again := ((refused.step .begin).step (.ask (.read _ sampleKey))).step .report
  have released : Run sample sampleKey _
      (.returned (.ok _) :: [_, _, _, _, _] ++ .returned (.error _) :: _) _ :=
    ((again.step (.ask (.writeMetadata _ _))).step .report).step .stop
  refine ⟨_, _, _, _, _, released, ?_, by decide, ?_, rfl⟩
  · exact List.mem_cons_of_mem _ List.mem_cons_self
  · exact List.mem_cons_of_mem _ (List.mem_cons_of_mem _ List.mem_cons_self)

end Scene

end Steward
