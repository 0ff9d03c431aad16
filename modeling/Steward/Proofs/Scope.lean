import Steward.Proofs.Operator
import Steward.Proofs.Steady

/-!
# The scope of a reconcile

A reconcile keeps to its own record.  Whatever it is answered, it writes under the key of the record
that it read, looks up the statuses of that record's references and no others, calls the manager for
that record's resource, and writes no message that is longer than the limit.  A scope says what may
be asked and called at all, whatever was done before.
-/

namespace Steward

variable {σ : Type}

structure Scope (σ : Type) where
  asks : Query σ → Prop
  /-- The resources for which the manager may be called. -/
  calls : String → Prop

/-- To keep to a scope is a conduct that does not depend on the deeds so far. -/
def Scope.conduct (scope : Scope σ) : Conduct σ where
  asks _ query := scope.asks query
  calls _ _ id _ := scope.calls id

/-- The scope has room for a reconcile of the record, and of any other with the same key and
specification. -/
structure Scope.Admits (scope : Scope σ) (c : Controller σ) (r : Record σ) : Prop where
  metadata : ∀ w : Record σ, w.key = r.key → scope.asks (.writeMetadata w)
  status : ∀ w : Record σ, w.key = r.key → w.status.message.length ≤ messageLimit →
    scope.asks (.writeStatus w)
  references : ∀ w : Record σ, w.key = r.key → w.spec = r.spec → ∀ refs,
    c.definition.references w = .ok refs → ∀ entry ∈ refs.all, scope.asks (.readStatus entry.2.key)
  manager : scope.calls (c.resourceId r)

theorem Scope.Admits.of_eq {scope : Scope σ} {c : Controller σ} {r w : Record σ}
    (admits : scope.Admits c r) (key : w.key = r.key) (spec : w.spec = r.spec) :
    scope.Admits c w where
  metadata u own := admits.metadata u (own.trans key)
  status u own := admits.status u (own.trans key)
  references u own same := admits.references u (own.trans key) (same.trans spec)
  manager := by
    rw [Controller.resourceId, spec]
    exact admits.manager

theorem length_clipped (message : String) : (clipped message).length ≤ messageLimit := by
  rw [clipped, String.length_ofList]
  exact List.length_take_le _ _

/-- No transition leaves a message that is longer than the limit. -/
theorem Transition.length_message_apply (t : Transition) (previous : Status) :
    (t.apply previous).message.length ≤ messageLimit := by
  rw [message_apply]
  exact length_clipped t.message

namespace Controller

variable {c : Controller σ} {scope : Scope σ} {key : Key} {r : Record σ} {deeds : List (Deed σ)}

theorem commit_within [DecidableEq σ] (admits : scope.Admits c r) (t : Transition) :
    (c.commit r t).Upholds scope.conduct anyEnd deeds := by
  rw [commit]
  by_cases same : t.apply r.status = r.status
  · rw [if_neg (not_not_intro same)]
    exact trivial
  rw [if_pos same, Attempt.upholds_bind, Attempt.upholds_writeStatus]
  refine ⟨admits.status _ rfl (t.length_message_apply r.status), fun answer _ => ?_⟩
  cases answer with
  | error fault => exact trivial
  | ok stored =>
      rw [Attempt.Onward]
      split
      · rw [Attempt.upholds_bind, Attempt.upholds_report]
        exact trivial
      · exact trivial

/-! ## A record that stays -/

theorem apply_within (admits : scope.Admits c r) (operation : Mutation)
    (permissions : Permissions) :
    (c.apply operation r permissions).Upholds scope.conduct anyEnd deeds := by
  rw [apply]
  split
  · exact trivial
  split
  · rw [Attempt.upholds_bind, call, Attempt.upholds_call]
    exact ⟨admits.manager, trivial, fun _ => trivial⟩
  · rw [Attempt.upholds_bind, call, Attempt.upholds_call]
    exact ⟨admits.manager, trivial, fun _ => trivial⟩

theorem drive_within (admits : scope.Admits c r) (permissions : Permissions) :
    (c.drive r permissions).Upholds scope.conduct anyEnd deeds := by
  rw [drive]
  split
  · exact apply_within admits .create permissions
  rw [Attempt.upholds_bind, call, Attempt.upholds_call]
  refine ⟨admits.manager, trivial, fun answer => ?_⟩
  obtain message | ⟨found, payload⟩ := answer
  · exact trivial
  simp only [Attempt.Onward]
  split
  · exact trivial
  · exact apply_within admits _ permissions

/-- References are looked up as far as they are ready, and nothing else is. -/
theorem check_within (refs : List (Role × Reference))
    (asks : ∀ entry ∈ refs, scope.asks (.readStatus entry.2.key)) :
    Procedure.Upholds scope.conduct anyEnd (Readiness.check Attempt.readStatus refs) deeds := by
  induction refs generalizing deeds with
  | nil => exact trivial
  | cons entry rest ih =>
      obtain ⟨role, ref⟩ := entry
      obtain ⟨own, others⟩ := List.forall_mem_cons.mp asks
      refine ⟨own, fun answer _ => ?_⟩
      cases answer with
      | error fault => exact trivial
      | ok status =>
          cases found : Readiness.ofStatus role ref status with
          | some readiness =>
              simp only [Procedure.bind, found]
              exact trivial
          | none =>
              simp only [Procedure.bind, found]
              exact ih others

/-- With the finalizer in place, a record has the key and the specification that it had. -/
theorem ensureFinalizer_within (admits : scope.Admits c r) :
    (c.ensureFinalizer r).Upholds scope.conduct
      (fun _ result => ∀ w, result = .ok w → w.key = r.key ∧ w.spec = r.spec) deeds := by
  rw [ensureFinalizer]
  split
  · rintro _ ⟨⟩
    exact ⟨rfl, rfl⟩
  · rw [Attempt.upholds_writeMetadata]
    have own := r.metadata.key_addFinalizer c.definition.finalizer
    refine ⟨admits.metadata _ own, fun answer fits => ?_⟩
    rintro w rfl
    obtain ⟨key, spec, _⟩ := fits w rfl
    exact ⟨key.trans own, spec⟩

theorem reconcilePresent_within [DecidableEq σ] (admits : scope.Admits c r)
    (permissions : Permissions) :
    (c.reconcilePresent r permissions).Upholds scope.conduct anyEnd deeds := by
  rw [reconcilePresent, Attempt.upholds_bind]
  refine (ensureFinalizer_within admits).imp fun deeds result secured => ?_
  obtain fault | w := result
  · exact trivial
  obtain ⟨key, spec⟩ := secured w rfl
  have admits := admits.of_eq key spec
  rw [Attempt.Onward]
  split
  case h_1 => exact commit_within admits _
  case h_2 => exact trivial
  case h_3 refs references =>
    rw [Attempt.upholds_bind]
    refine (check_within refs.all (admits.references w rfl rfl refs references)).imp
      fun deeds result _ => ?_
    obtain fault | readiness := result
    · exact trivial
    rw [Attempt.Onward]
    split
    · rw [Attempt.upholds_bind]
      refine (drive_within admits permissions).imp fun deeds result _ => ?_
      obtain fault | t := result
      · exact trivial
      · exact commit_within admits t
    · exact commit_within admits _

/-! ## A record that is to be deleted -/

theorem release_within (admits : scope.Admits c r) :
    (c.release r).Upholds scope.conduct anyEnd deeds := by
  rw [release]
  split
  · rw [Attempt.upholds_bind, Attempt.upholds_writeMetadata]
    refine ⟨admits.metadata _ rfl, fun answer _ => ?_⟩
    cases answer with
    | error fault => exact trivial
    | ok stored =>
        rw [Attempt.Onward, Attempt.upholds_bind, Attempt.upholds_report]
        exact trivial
  · exact trivial

theorem advanceDeletion_within [DecidableEq σ] (admits : scope.Admits c r)
    (progress : DeletionProgress) :
    (c.advanceDeletion r progress).Upholds scope.conduct anyEnd deeds := by
  unfold advanceDeletion
  cases progress with
  | confirmed => exact release_within admits
  | inProgress | reissue | failed => exact commit_within admits _

theorem issueDelete_within [DecidableEq σ] (admits : scope.Admits c r) :
    (c.issueDelete r).Upholds scope.conduct anyEnd deeds := by
  rw [issueDelete, Attempt.upholds_bind, call, Attempt.upholds_call]
  refine ⟨admits.manager, trivial, fun answer => ?_⟩
  cases answer <;> exact advanceDeletion_within admits _

theorem verifyDelete_within [DecidableEq σ] (admits : scope.Admits c r) :
    (c.verifyDelete r).Upholds scope.conduct anyEnd deeds := by
  rw [verifyDelete, Attempt.upholds_bind, call, Attempt.upholds_call]
  refine ⟨admits.manager, trivial, fun answer => ?_⟩
  obtain message | ⟨found, payload⟩ := answer
  · exact advanceDeletion_within admits _
  simp only [Attempt.Onward]
  split
  · exact issueDelete_within admits
  · exact advanceDeletion_within admits _

theorem reconcileDeletion_within [DecidableEq σ] (admits : scope.Admits c r)
    (permissions : Permissions) :
    (c.reconcileDeletion r permissions).Upholds scope.conduct anyEnd deeds := by
  rw [reconcileDeletion]
  split
  · exact trivial
  · rw [Attempt.upholds_bind, Attempt.upholds_report]
    exact release_within admits
  · exact issueDelete_within admits
  · exact verifyDelete_within admits

/-! ## A whole reconcile -/

/-- After it read a record, a reconcile stays within every scope that has room for the record. -/
theorem afterRead_within [DecidableEq σ] (found : Except Fault (Option (Record σ)))
    (admits : ∀ r, found = .ok (some r) → scope.Admits c r) :
    Procedure.Upholds scope.conduct anyEnd (c.afterRead found) deeds := by
  obtain fault | _ | r := found
  · exact trivial
  · exact trivial
  have admits := admits r rfl
  rw [afterRead]
  split
  · exact reconcileDeletion_within admits (c.permissions r)
  · exact reconcilePresent_within admits (c.permissions r)

end Controller

/-! ## What a site answers -/

namespace Site

variable {kind : Kind} {site : Site}

theorem answer_fits (filed : site.Filed) (query : Query kind.Spec) :
    query.Fits (answer kind query site).1 := by
  cases query with
  | read key => exact (Store.Answers.read (site.store kind) key).fits (filed kind)
  | writeMetadata r => exact (Store.Answers.writeMetadata (site.store kind) r).fits (filed kind)
  | writeStatus r => exact (Store.Answers.writeStatus (site.store kind) r).fits (filed kind)
  | readStatus => exact trivial

/-- Where the store does not fail, to read changes nothing. -/
theorem answer_read (sound : (site.store kind).faults = 0) (key : Key) :
    answer kind (.read key) site = (.ok (site.store kind).records[key]?, site) := by
  rw [answer, access, Store.get_of_sound sound]
  exact congrArg _ (site.setStore_store kind)

theorem answer_readStatus (sound : site.plain.faults = 0) (key : Key) :
    answer kind (.readStatus key) site =
      (.ok (site.plain.records[key]?.map Record.status), site) := by
  change site.access .plain (fun s => s.readStatus key) = _
  rw [access, show site.store .plain = site.plain from rfl, Store.readStatus_of_sound sound]
  rfl

end Site

end Steward
