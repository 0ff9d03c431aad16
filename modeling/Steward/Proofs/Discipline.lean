import Steward.Proofs.Conduct

/-!
# What a reconcile decides

A reconcile decides by the record in hand, by whether that record was to be deleted when it was
read, and by how its calls ended so far.  `Due` lists the calls that may come next, `Concludes` the
changes of status that it may come to, and `Closes` what a result says about both.  Nothing else is
ever called or written down.
-/

namespace Steward

variable {σ : Type}

namespace Mutation

/-- The call that carries out an operation. -/
def call : Mutation → Call
  | create => .create
  | update => .update
  | delete => .delete

theorem call_injective : Function.Injective call := by
  intro operation other same
  cases operation <;> cases other <;> first | rfl | cases same

theorem call_ne_verify (operation : Mutation) : operation.call ≠ .verify := by
  cases operation <;> decide

end Mutation

/-- A call of the manager together with its end. -/
abbrev Ended : Type := (call : Call) × call.Ending

namespace Deed

def ended? : Deed σ → Option Ended
  | .ended call ending => some ⟨call, ending⟩
  | _ => none

/-- How the calls ended, the newest first. -/
def endings (deeds : List (Deed σ)) : List Ended := deeds.filterMap ended?

theorem mem_endings {deeds : List (Deed σ)} {call : Call} {ending : call.Ending} :
    ⟨call, ending⟩ ∈ endings deeds ↔ .ended call ending ∈ deeds := by
  rw [endings, List.mem_filterMap]
  constructor
  · rintro ⟨deed, done, ended⟩
    cases deed <;> cases ended
    exact done
  · exact fun done => ⟨_, done, rfl⟩

end Deed

/-- The calls that are due for a record with this status, after the calls that ended so. -/
inductive Due (status : Status) : Bool → List Ended → Call → Prop where
  | create (unissued : status.operation = none) : Due status false [] .create
  | probe (issued : status.operation ≠ none) : Due status false [] .verify
  | apply {found : Condition} {payload : Option Payload} {operation : Mutation}
      (issued : status.operation ≠ none)
      (verdict : Verdict.ofCondition found status.phase = .apply operation) :
      Due status false [⟨.verify, some (.ok ⟨found, payload⟩)⟩] operation.call
  | delete (unissued : status.operation ≠ some .delete) : Due status true [] .delete
  | poll (issued : status.operation = some .delete) : Due status true [] .verify
  | reissue {found : Condition} {payload : Option Payload}
      (issued : status.operation = some .delete)
      (present : DeletionProgress.afterVerify found (status.phase == some .failed) = .reissue) :
      Due status true [⟨.verify, some (.ok ⟨found, payload⟩)⟩] .delete

/-- Only probes come before another call. -/
theorem Due.probes {status : Status} {deleting : Bool} {ended : List Ended} {call : Call}
    (due : Due status deleting ended call) : ∀ earlier ∈ ended, earlier.1 = .verify := by
  cases due with
  | create | probe | delete | poll => exact fun _ none => nomatch none
  | apply | reissue => exact List.forall_mem_singleton.mpr rfl

namespace DeletionProgress

/-- What the progress of a deletion leads to; none once the resource is gone. -/
def transition? : DeletionProgress → Option Transition
  | confirmed => none
  | inProgress | reissue => some ((Transition.inProgress "deleting resource").issued .delete)
  | failed message =>
      some (((Transition.failed message).reporting .warning "DeleteFailed").issued .delete)

/-- The progress that the answer to a delete means. -/
def ofDelete : Except String DeleteResult → DeletionProgress
  | .ok result => afterDelete result
  | .error message => failed message

/-- The progress that the answer to a probe means. -/
def ofProbe (attemptFailed : Bool) : Except String (Response Condition) → DeletionProgress
  | .ok ⟨found, _⟩ => afterVerify found attemptFailed
  | .error message => failed message

end DeletionProgress

/-- The changes of status that a reconcile comes to with the record `r` in hand, where `deleting`
tells whether it was to be deleted, after the calls that ended so. -/
inductive Controller.Concludes (c : Controller σ) (permissions : Permissions) (r : Record σ) :
    Bool → List Ended → Transition → Prop where
  | invalid {key : Key} {reason : String}
      (invalid : c.definition.references r = .error (.invalidInstance key reason)) :
      Concludes c permissions r false []
        ((Transition.failed reason).reporting .warning "InvalidInstance")
  | waits {readiness : Readiness} (waits : readiness.isReady = false) :
      Concludes c permissions r false [] (.pending readiness.message)
  | denied {ended : List Ended} {operation : Mutation}
      (due : Due r.status false ended operation.call)
      (denied : permissions.allows operation = false) :
      Concludes c permissions r false ended (.denied operation)
  | created {ended : List Ended} (due : Due r.status false ended .create)
      (answer : Except String (Response ApplyResult)) :
      Concludes c permissions r false (⟨.create, some answer⟩ :: ended)
        (.afterApply .create answer)
  | updated {ended : List Ended} (due : Due r.status false ended .update)
      (answer : Except String (Response ApplyResult)) :
      Concludes c permissions r false (⟨.update, some answer⟩ :: ended)
        (.afterApply .update answer)
  | probeFailed (due : Due r.status false [] .verify) (message : String) :
      Concludes c permissions r false [⟨.verify, some (.error message)⟩]
        ((Transition.failed message).reporting .warning "VerifyFailed")
  | settled (due : Due r.status false [] .verify) {found : Condition} {payload : Option Payload}
      {t : Transition} (verdict : Verdict.ofCondition found r.status.phase = .settle t) :
      Concludes c permissions r false [⟨.verify, some (.ok ⟨found, payload⟩)⟩]
        (t.withPayload payload)
  | deleted {ended : List Ended} (due : Due r.status true ended .delete)
      (answer : Except String DeleteResult) {t : Transition}
      (progress : (DeletionProgress.ofDelete answer).transition? = some t) :
      Concludes c permissions r true (⟨.delete, some answer⟩ :: ended) t
  | polled (due : Due r.status true [] .verify) (answer : Except String (Response Condition))
      {t : Transition}
      (progress : (DeletionProgress.ofProbe (r.status.phase == some .failed) answer).transition? =
        some t) :
      Concludes c permissions r true [⟨.verify, some answer⟩] t

namespace Controller

open Deed

variable {c : Controller σ} {key : Key} {deeds : List (Deed σ)} {r : Record σ}
variable {deleting : Bool} {permissions : Permissions}

/-- What a reconcile decides by: the record `r` is in hand, and when it was read, `deleting` told
whether it was to be deleted, and its annotation gave these permissions. -/
structure Standing (c : Controller σ) (key : Key) (deeds : List (Deed σ)) (deleting : Bool)
    (permissions : Permissions) (r : Record σ) : Prop where
  read : ∃ first : Record σ, .asked (.read key) (.ok (some first)) ∈ deeds ∧
    first.metadata.isDeletionRequested = deleting ∧
    Permissions.ofAnnotations first.metadata.annotations c.permissionKey = permissions
  hand : inHand deeds = some r

/-- Only what is due is called, and only what is concluded is written. -/
def discipline (c : Controller σ) (key : Key) : Conduct σ where
  asks
    | deeds, .writeStatus incoming => ∃ deleting permissions r t,
        c.Standing key deeds deleting permissions r ∧
        c.Concludes permissions r deleting (endings deeds) t ∧
        incoming = { r with status := t.apply r.status }
    | _, _ => True
  calls deeds call _ _ := ∃ deleting permissions r,
    c.Standing key deeds deleting permissions r ∧ Due r.status deleting (endings deeds) call ∧
    ∀ operation : Mutation, operation.call = call → permissions.allows operation = true

/-- Nothing ended but probes, and a delete that succeeded. -/
def Frees (ended : List Ended) : Prop :=
  ∀ call ∈ ended, call.1 = .verify ∨ call = ⟨.delete, some (.ok .succeeded)⟩

/-- A result without a status comes of no calls but probes and a delete that succeeded.  Any other
shows the status of the record in hand, which is the one that was concluded. -/
def Closes (c : Controller σ) (key : Key) (deeds : List (Deed σ)) :
    Except Fault Outcome → Prop
  | .error _ => True
  | .ok outcome =>
      (outcome = .finished ∧ Frees (endings deeds)) ∨
      ∃ deleting permissions r t w, c.Standing key deeds deleting permissions w ∧
        c.Concludes permissions r deleting (endings deeds) t ∧ w.status = t.apply r.status ∧
        outcome = ⟨some w.status, some (c.requeueAfter t.phase)⟩

theorem Standing.quiet (standing : c.Standing key deeds deleting permissions r) {deed : Deed σ}
    (unseen : deed.record? = none) :
    c.Standing key (deed :: deeds) deleting permissions r where
  read := standing.read.imp fun _ ⟨read, said⟩ => ⟨List.mem_cons_of_mem _ read, said⟩
  hand := by rw [inHand_cons, unseen, Option.none_or, standing.hand]

theorem Standing.shown (standing : c.Standing key deeds deleting permissions r) {deed : Deed σ}
    {w : Record σ} (shown : deed.record? = some w) :
    c.Standing key (deed :: deeds) deleting permissions w where
  read := standing.read.imp fun _ ⟨read, said⟩ => ⟨List.mem_cons_of_mem _ read, said⟩
  hand := by rw [inHand_cons, shown, Option.some_or]

theorem Standing.called (standing : c.Standing key deeds deleting permissions r) {call : Call}
    {ending : call.Ending} {id : String} {spec : σ} :
    c.Standing key (.ended call ending :: .issued call id spec :: deeds) deleting permissions r :=
  (standing.quiet rfl).quiet rfl

/-- A probe needs no permission. -/
theorem Standing.probe (standing : c.Standing key deeds deleting permissions r)
    (due : Due r.status deleting (endings deeds) .verify) {id : String} {spec : σ} :
    (c.discipline key).calls deeds .verify id spec :=
  ⟨deleting, permissions, r, standing, due, fun operation probes =>
    absurd probes operation.call_ne_verify⟩

/-- Any other call needs the permission for its operation. -/
theorem Standing.mutate (standing : c.Standing key deeds deleting permissions r)
    {operation : Mutation} (permitted : permissions.allows operation = true)
    (due : Due r.status deleting (endings deeds) operation.call) {id : String} {spec : σ} :
    (c.discipline key).calls deeds operation.call id spec := by
  refine ⟨deleting, permissions, r, standing, due, fun other same => ?_⟩
  obtain rfl := Mutation.call_injective same
  exact permitted

theorem commit_disciplined [DecidableEq σ] {t : Transition}
    (standing : c.Standing key deeds deleting permissions r)
    (concludes : c.Concludes permissions r deleting (endings deeds) t) :
    (c.commit r t).Upholds (c.discipline key) (c.Closes key) deeds := by
  rw [commit]
  by_cases same : t.apply r.status = r.status
  · rw [if_neg (not_not_intro same)]
    refine .inr ⟨deleting, permissions, r, t, r, standing, concludes, same.symm, ?_⟩
    rw [same]
  rw [if_pos same, Attempt.upholds_bind, Attempt.upholds_writeStatus]
  refine ⟨⟨deleting, permissions, r, t, standing, concludes, rfl⟩, fun answer fits => ?_⟩
  obtain fault | w := answer
  · exact trivial
  have written : w.status = t.apply r.status := (fits w rfl).2
  have closes (quiet : List (Deed σ)) (standing : c.Standing key quiet deleting permissions w)
      (same : endings quiet = endings deeds) :
      c.Closes key quiet (.ok ⟨some (t.apply r.status), some (c.requeueAfter t.phase)⟩) := by
    refine .inr ⟨deleting, permissions, r, t, w, standing, ?_, written, by rw [written]⟩
    rw [same]
    exact concludes
  rw [Attempt.Onward]
  split
  · rw [Attempt.upholds_bind, Attempt.upholds_report]
    exact closes _ ((standing.shown rfl).quiet rfl) rfl
  · exact closes _ (standing.shown rfl) rfl

/-! ## A record that stays -/

/-- After it was decided what to do with a record that stays. -/
def Concluded (c : Controller σ) (key : Key) (permissions : Permissions) (r : Record σ)
    (deeds : List (Deed σ)) : Except Fault Transition → Prop
  | .ok t => c.Standing key deeds false permissions r ∧
      c.Concludes permissions r false (endings deeds) t
  | .error _ => True

theorem apply_disciplined {operation : Mutation}
    (standing : c.Standing key deeds false permissions r) (mutates : operation ≠ .delete)
    (due : Due r.status false (endings deeds) operation.call) :
    (c.apply operation r permissions).Upholds (c.discipline key) (c.Concluded key permissions r)
      deeds := by
  rw [apply]
  split
  case isTrue denied => exact ⟨standing, .denied due (by simpa using denied)⟩
  case isFalse allowed =>
    have calls : (c.discipline key).calls deeds operation.call (c.resourceId r) r.spec :=
      standing.mutate (by simpa using allowed) due
    cases operation with
    | delete => exact absurd rfl mutates
    | create =>
        rw [if_neg (by decide), Attempt.upholds_bind, call, Attempt.upholds_call]
        exact ⟨calls, trivial, fun answer => ⟨standing.called, .created due answer⟩⟩
    | update =>
        rw [if_pos rfl, Attempt.upholds_bind, call, Attempt.upholds_call]
        exact ⟨calls, trivial, fun answer => ⟨standing.called, .updated due answer⟩⟩

theorem drive_disciplined (standing : c.Standing key deeds false permissions r)
    (first : endings deeds = []) :
    (c.drive r permissions).Upholds (c.discipline key) (c.Concluded key permissions r) deeds := by
  rw [drive]
  split
  case isTrue unissued =>
    exact apply_disciplined standing (by decide) (first ▸ .create unissued)
  case isFalse issued =>
    have due : Due r.status false [] .verify := .probe issued
    rw [Attempt.upholds_bind, call, Attempt.upholds_call]
    refine ⟨standing.probe (first ▸ due), trivial, fun answer => ?_⟩
    have probed : endings (.ended .verify (some answer) ::
        .issued .verify (c.resourceId r) r.spec :: deeds) = [⟨.verify, some answer⟩] :=
      congrArg (List.cons _) first
    obtain message | ⟨found, payload⟩ := answer
    · exact ⟨standing.called, probed ▸ .probeFailed due message⟩
    rw [Attempt.Onward]
    obtain ⟨t, settles, _⟩ | ⟨operation, applies, mutates⟩ :=
      ofCondition_cases found r.status.phase
    · simp only [settles]
      exact ⟨standing.called, probed ▸ .settled due settles⟩
    · simp only [applies]
      exact apply_disciplined standing.called mutates (probed ▸ .apply issued applies)

theorem ensureFinalizer_disciplined (standing : c.Standing key deeds false permissions r)
    (first : endings deeds = []) :
    (c.ensureFinalizer r).Upholds (c.discipline key)
      (fun deeds result => ∀ r, result = .ok r →
        c.Standing key deeds false permissions r ∧ endings deeds = []) deeds := by
  rw [ensureFinalizer]
  split
  · rintro _ ⟨⟩
    exact ⟨standing, first⟩
  · rw [Attempt.upholds_writeMetadata]
    refine ⟨trivial, fun answer _ => ?_⟩
    rintro r rfl
    exact ⟨standing.shown rfl, first⟩

theorem reconcilePresent_disciplined [DecidableEq σ]
    (standing : c.Standing key deeds false permissions r) (first : endings deeds = []) :
    (c.reconcilePresent r permissions).Upholds (c.discipline key) (c.Closes key) deeds := by
  rw [reconcilePresent, Attempt.upholds_bind]
  refine (ensureFinalizer_disciplined standing first).imp fun deeds result secured => ?_
  obtain fault | r := result
  · exact trivial
  obtain ⟨standing, first⟩ := secured r rfl
  rw [Attempt.Onward]
  split
  case h_1 invalid => exact commit_disciplined standing (first ▸ .invalid invalid)
  case h_2 => exact trivial
  rw [Attempt.upholds_bind]
  -- To look up statuses changes nothing that is decided by.
  refine check_upholds
    (fun deeds => c.Standing key deeds false permissions r ∧ endings deeds = [])
    (fun _ _ => trivial) (fun _ _ _ now => ⟨now.1.quiet rfl, now.2⟩)
    (fun deeds result now => ?_) _ ⟨standing, first⟩
  obtain ⟨standing, first⟩ := now
  obtain fault | readiness := result
  · exact trivial
  rw [Attempt.Onward]
  split
  case isTrue =>
    rw [Attempt.upholds_bind]
    refine (drive_disciplined standing first).imp fun deeds result concluded => ?_
    obtain fault | t := result
    · exact trivial
    · exact commit_disciplined concluded.1 concluded.2
  case isFalse waits =>
    exact commit_disciplined standing (first ▸ .waits (by simpa using waits))

/-! ## A record that is to be deleted -/

theorem release_disciplined (freed : Frees (endings deeds)) :
    (c.release r).Upholds (c.discipline key) (c.Closes key) deeds := by
  rw [release]
  split
  · rw [Attempt.upholds_bind, Attempt.upholds_writeMetadata]
    refine ⟨trivial, fun answer _ => ?_⟩
    cases answer with
    | error fault => exact trivial
    | ok stored =>
        rw [Attempt.Onward, Attempt.upholds_bind, Attempt.upholds_report]
        exact .inl ⟨rfl, freed⟩
  · exact .inl ⟨rfl, freed⟩

theorem advanceDeletion_disciplined [DecidableEq σ] {progress : DeletionProgress}
    (standing : c.Standing key deeds true permissions r)
    (freed : progress = .confirmed → Frees (endings deeds))
    (concludes : ∀ t, progress.transition? = some t →
      c.Concludes permissions r true (endings deeds) t) :
    (c.advanceDeletion r progress).Upholds (c.discipline key) (c.Closes key) deeds := by
  unfold advanceDeletion
  cases progress with
  | confirmed => exact release_disciplined (freed rfl)
  | inProgress | reissue | failed => exact commit_disciplined standing (concludes _ rfl)

theorem ofDelete_eq_confirmed {answer : Except String DeleteResult}
    (confirmed : DeletionProgress.ofDelete answer = .confirmed) : answer = .ok .succeeded := by
  obtain _ | _ | _ | _ := answer <;> first | rfl | cases confirmed

theorem issueDelete_disciplined [DecidableEq σ]
    (standing : c.Standing key deeds true permissions r)
    (permitted : permissions.allows .delete = true)
    (due : Due r.status true (endings deeds) .delete)
    (probes : ∀ ended ∈ endings deeds, ended.1 = .verify) :
    (c.issueDelete r).Upholds (c.discipline key) (c.Closes key) deeds := by
  rw [issueDelete, Attempt.upholds_bind, call, Attempt.upholds_call]
  refine ⟨standing.mutate permitted due, trivial, fun answer => ?_⟩
  have advances : (c.advanceDeletion r (.ofDelete answer)).Upholds (c.discipline key)
      (c.Closes key) (.ended .delete (some answer) ::
        .issued .delete (c.resourceId r) r.spec :: deeds) := by
    refine advanceDeletion_disciplined standing.called (fun confirmed ended done => ?_)
      fun t progress => .deleted due answer progress
    obtain rfl := ofDelete_eq_confirmed confirmed
    obtain rfl | before := List.mem_cons.mp done
    · exact .inr rfl
    · exact .inl (probes ended before)
  cases answer <;> exact advances

theorem verifyDelete_disciplined [DecidableEq σ]
    (standing : c.Standing key deeds true permissions r)
    (permitted : permissions.allows .delete = true) (issued : r.status.operation = some .delete)
    (first : endings deeds = []) :
    (c.verifyDelete r).Upholds (c.discipline key) (c.Closes key) deeds := by
  have due : Due r.status true [] .verify := .poll issued
  rw [verifyDelete, Attempt.upholds_bind, call, Attempt.upholds_call]
  refine ⟨standing.probe (first ▸ due), trivial, fun answer => ?_⟩
  have probed : endings (.ended .verify (some answer) ::
      .issued .verify (c.resourceId r) r.spec :: deeds) = [⟨.verify, some answer⟩] :=
    congrArg (List.cons _) first
  have probes : ∀ ended ∈ endings (.ended .verify (some answer) ::
      .issued .verify (c.resourceId r) r.spec :: deeds), ended.1 = Call.verify := by
    rw [probed]
    exact List.forall_mem_singleton.mpr rfl
  have advances : (c.advanceDeletion r (.ofProbe (r.status.phase == some .failed) answer)).Upholds
      (c.discipline key) (c.Closes key) (.ended .verify (some answer) ::
        .issued .verify (c.resourceId r) r.spec :: deeds) :=
    advanceDeletion_disciplined standing.called (fun _ ended done => .inl (probes ended done))
      fun t progress => probed ▸ .polled due answer progress
  obtain message | ⟨found, payload⟩ := answer
  · exact advances
  simp only [Attempt.Onward]
  split
  case h_1 reissue =>
    exact issueDelete_disciplined standing.called permitted (probed ▸ .reissue issued reissue)
      probes
  case h_2 => exact advances

theorem reconcileDeletion_disciplined [DecidableEq σ]
    (standing : c.Standing key deeds true
      (Permissions.ofAnnotations r.metadata.annotations c.permissionKey) r)
    (first : endings deeds = []) :
    (c.reconcileDeletion r
        (Permissions.ofAnnotations r.metadata.annotations c.permissionKey)).Upholds
      (c.discipline key) (c.Closes key) deeds := by
  have nothing : Frees (endings deeds) := by
    rw [first]
    exact List.forall_mem_nil _
  have planned := plannedFor_next c r
  rw [reconcileDeletion]
  split <;> rename_i plan <;> rw [plan] at planned
  · exact .inl ⟨rfl, nothing⟩
  · rw [Attempt.upholds_bind, Attempt.upholds_report]
    exact release_disciplined nothing
  · exact issueDelete_disciplined standing planned.2.1 (first ▸ .delete planned.2.2)
      (by rw [first]; exact List.forall_mem_nil _)
  · exact verifyDelete_disciplined standing planned.2.1 planned.2.2 first

/-! ## A whole reconcile -/

/-- Whatever it is answered, a reconcile calls what is due and writes what is concluded. -/
theorem reconcile_disciplined [DecidableEq σ] (c : Controller σ) (key : Key) :
    (c.reconcile key).Upholds (c.discipline key) (c.Closes key) [] := by
  rw [reconcile, Attempt.upholds_bind, Attempt.upholds_read]
  refine ⟨trivial, fun answer fits => ?_⟩
  obtain fault | _ | r := answer
  · exact trivial
  · exact .inl ⟨rfl, List.forall_mem_nil _⟩
  have standing (deleting : Bool) (said : r.metadata.isDeletionRequested = deleting) :
      c.Standing key [.asked (.read key) (.ok (some r))] deleting
        (Permissions.ofAnnotations r.metadata.annotations c.permissionKey) r :=
    ⟨⟨r, List.mem_singleton_self _, said, rfl⟩, rfl⟩
  simp only [Attempt.Onward]
  split
  case isTrue requested => exact reconcileDeletion_disciplined (standing true requested) rfl
  case isFalse stays =>
    exact reconcilePresent_disciplined (standing false (Bool.eq_false_iff.mpr stays)) rfl

end Controller

end Steward
