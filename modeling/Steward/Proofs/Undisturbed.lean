import Steward.Proofs.Bench
import Steward.Proofs.Visit

/-!
# One reconcile on a bench that is left alone

Where nothing fails and nobody interferes, a reconcile of a plain record comes to one call, and
leaves the record with a status that tells of it.  Only when a deletion is confirmed does it leave
the record without the finalizer of the engine.
-/

namespace Steward

namespace Bench

variable {c : Controller Plain} {b : Bench} {r : Record Plain}

/-- The status of the record may have changed, and its operation is this one; but for its version
nothing else of it has. -/
def Restates (c : Controller Plain) (r : Record Plain) (operation : Option Mutation)
    (backend : Backend) (after : Bench) : Prop :=
  ∃ resourceVersion status, status.operation = operation ∧
    after.Shows c r.key
      (some { r with metadata := { r.metadata with resourceVersion }, status }) backend

theorem Calm.commit_restates (calm : b.Calm c) (budget : Nat)
    (stored : b.site.plain.records[r.key]? = some r) (guards : c.Guards r) (t : Transition) :
    (b.carry budget (c.commit r t).run).2.Restates c r (t.operation <|> r.status.operation)
      b.site.backend := by
  obtain ⟨outcome, after, resourceVersion, committed, left⟩ :=
    calm.carry_commit budget stored guards.finalizers_ne_nil t
  rw [committed]
  exact ⟨resourceVersion, _, Controller.operation_apply t r.status, left⟩

/-- The finalizers of a record are written. -/
theorem Calm.carry_writeFinalizers (calm : b.Calm c) (budget : Nat)
    (stored : b.site.plain.records[r.key]? = some r) (finalizers : List String) :
    ∃ after, b.carry budget
        (Attempt.writeMetadata { r with metadata := { r.metadata with finalizers } }).run =
          (.ok (Store.bumped { r with metadata := { r.metadata with finalizers } }), after) ∧
      after.Shows c r.key
        (Store.bumped { r with metadata := { r.metadata with finalizers } }).landed
        b.site.backend := by
  have written :=
    Store.update_of_stored calm.sound stored { r.metadata with finalizers } rfl rfl
  rw [Store.rewritten_self] at written
  rw [carry_writeMetadata, written]
  refine ⟨_, rfl, calm.refiled ?_, ?_, rfl⟩
  · split <;> exact calm.sound
  by_cases drops : (r.metadata.isDeletionRequested && finalizers.isEmpty) = true
  · rw [if_pos drops, Record.landed]
    exact Std.ExtTreeMap.getElem?_erase_self.trans (if_pos drops).symm
  · rw [if_neg drops, Record.landed]
    exact Std.ExtTreeMap.getElem?_insert_self.trans (if_neg drops).symm

theorem Calm.issueDelete_restates (calm : b.Calm c) (budget : Nat)
    (stored : b.site.plain.records[r.key]? = some r) (guards : c.Guards r)
    (plainly : (b.site.backend.resource (c.resourceId r)).behaviours = []) :
    (b.carry budget (c.issueDelete r).run).2.Restates c r (some .delete)
      (b.received .delete (c.resourceId r)).site.backend := by
  have called := calm.carry_attempt budget .delete r
  rw [Backend.perform_delete calm.manual _ plainly] at called
  rw [Controller.issueDelete, carry_bind called]
  exact (calm.received .delete (c.resourceId r)).commit_restates budget stored guards
    ((Transition.inProgress "deleting resource").issued .delete)

/-- A deletion that is under way is polled. -/
theorem Calm.verifyDelete_restates (calm : b.Calm c) (budget : Nat)
    (stored : b.site.plain.records[r.key]? = some r) (guards : c.Guards r)
    (plainly : (b.site.backend.resource (c.resourceId r)).behaviours = [])
    (latest : (b.site.backend.resource (c.resourceId r)).latest = .deleting) :
    (b.carry budget (c.verifyDelete r).run).2.Restates c r (some .delete)
      (b.received .verify (c.resourceId r)).site.backend := by
  obtain ⟨payload, answer⟩ := Backend.perform_verify calm.manual b.site.clock plainly
  have called := calm.carry_attempt budget .verify r
  rw [answer, latest] at called
  rw [Controller.verifyDelete, carry_bind called]
  exact (calm.received .verify (c.resourceId r)).commit_restates budget stored guards
    ((Transition.inProgress "deleting resource").issued .delete)

/-- Once the resource is gone, the finalizer is removed. -/
theorem Calm.verifyDelete_releases (calm : b.Calm c) (budget : Nat)
    (stored : b.site.plain.records[r.key]? = some r) (guards : c.Guards r)
    (plainly : (b.site.backend.resource (c.resourceId r)).behaviours = [])
    (latest : (b.site.backend.resource (c.resourceId r)).latest = .missing) :
    (b.carry budget (c.verifyDelete r).run).2.Shows c r.key
      (Store.bumped
        { r with metadata := r.metadata.removeFinalizer c.definition.finalizer }).landed
      (b.received .verify (c.resourceId r)).site.backend := by
  obtain ⟨payload, answer⟩ := Backend.perform_verify calm.manual b.site.clock plainly
  have called := calm.carry_attempt budget .verify r
  rw [answer, latest] at called
  have guarded : r.metadata.hasFinalizer c.definition.finalizer = true := guards
  obtain ⟨after, written, left⟩ := (calm.received .verify (c.resourceId r)).carry_writeFinalizers
    budget stored (r.metadata.finalizers.filter (· != c.definition.finalizer))
  rw [Controller.verifyDelete, carry_bind called]
  change Bench.Shows _ _ _ _ (Bench.carry _ budget (c.release r).run).2
  rw [Controller.release, if_pos guarded, Metadata.removeFinalizer, carry_bind written,
    carry_bind (carry_report _ _ _)]
  exact left.noted _

/-- A record that is to stay has the finalizer in place before anything else is done. -/
theorem Calm.carry_ensureFinalizer (calm : b.Calm c) (budget : Nat)
    (stored : b.site.plain.records[r.key]? = some r)
    (stays : r.metadata.isDeletionRequested = false) :
    ∃ after, b.carry budget (c.ensureFinalizer r).run = (.ok (c.secured r), after) ∧
      after.Shows c r.key (some (c.secured r)) b.site.backend := by
  rw [Controller.ensureFinalizer, Controller.secured]
  by_cases guards : r.metadata.hasFinalizer c.definition.finalizer = true
  · rw [if_pos guards, if_pos guards]
    exact ⟨b, rfl, calm, stored, rfl⟩
  · rw [if_neg guards, if_neg guards, Metadata.addFinalizer_of_lacks guards]
    obtain ⟨after, written, left⟩ := calm.carry_writeFinalizers budget stored
      (r.metadata.finalizers ++ [c.definition.finalizer])
    rw [Record.landed_of_stays] at left
    · exact ⟨after, written, left⟩
    · exact stays

/-- A plain record that is to stay is looked at at once, for it depends on nothing. -/
theorem Calm.carry_reconcilePresent (calm : b.Calm c) (budget : Nat)
    (kind : c.definition = Plain.definition) (stored : b.site.plain.records[r.key]? = some r)
    (stays : r.metadata.isDeletionRequested = false) (permissions : Permissions) :
    ∃ after : Bench, after.Shows c r.key (some (c.secured r)) b.site.backend ∧
      b.carry budget (c.reconcilePresent r permissions).run =
        after.carry budget (c.drive (c.secured r) permissions >>= c.commit (c.secured r)).run := by
  obtain ⟨after, ensured, left⟩ := calm.carry_ensureFinalizer budget stored stays
  have alone : c.definition.references (c.secured r) = .ok {} := by rw [kind]; rfl
  refine ⟨after, left, ?_⟩
  rw [Controller.reconcilePresent, carry_bind ensured, alone]
  rfl

theorem Calm.carry_drive_unissued (calm : b.Calm c) (budget : Nat)
    (unissued : r.status.operation = none)
    (plainly : (b.site.backend.resource (c.resourceId r)).behaviours = []) :
    ∃ t, b.carry budget (c.drive r .all).run = (.ok t, b.received .create (c.resourceId r)) ∧
      t.operation = some .create := by
  obtain ⟨payload, answer⟩ := Backend.perform_create calm.manual b.site.clock plainly
  have called := calm.carry_attempt budget .create r
  rw [answer] at called
  rw [Controller.drive, if_pos unissued]
  change ∃ t, b.carry budget (c.call .create r >>= fun answer =>
    pure (Transition.afterApply .create answer)).run = _ ∧ _
  rw [carry_bind called]
  exact ⟨_, rfl, rfl⟩

theorem Calm.carry_drive_issued (calm : b.Calm c) (budget : Nat)
    (issued : r.status.operation = some .create)
    (plainly : (b.site.backend.resource (c.resourceId r)).behaviours = [])
    (latest : (b.site.backend.resource (c.resourceId r)).latest = .inProgress ∨
      (b.site.backend.resource (c.resourceId r)).latest = .ready) :
    ∃ t, b.carry budget (c.drive r .all).run = (.ok t, b.received .verify (c.resourceId r)) ∧
      t.operation = none := by
  obtain ⟨payload, answer⟩ := Backend.perform_verify calm.manual b.site.clock plainly
  have called := calm.carry_attempt budget .verify r
  rw [answer] at called
  rw [Controller.drive, if_neg (by rw [issued]; exact Option.some_ne_none _), carry_bind called]
  obtain found | found := latest
  · rw [found]
    exact ⟨_, rfl, rfl⟩
  · rw [found]
    exact ⟨_, rfl, rfl⟩

/-- A reconcile of a plain record that is to stay makes the call that its status tells. -/
theorem Calm.reconcile_restates (calm : b.Calm c) (kind : c.definition = Plain.definition)
    (stored : b.site.plain.records[r.key]? = some r)
    (stays : r.metadata.isDeletionRequested = false)
    (permits : Permissions.ofAnnotations r.metadata.annotations c.permissionKey = .all)
    {call : Call} {operation : Option Mutation}
    (drives : ∀ after : Bench, after.Calm c → after.site.backend = b.site.backend →
      ∃ t, after.carry c.intervals.operationTimeout (c.drive (c.secured r) .all).run =
          (.ok t, after.received call (c.resourceId r)) ∧
        (t.operation <|> r.status.operation) = operation) :
    (b.reconcile .plain r.key).2.Restates c (c.secured r) operation
      (b.received call (c.resourceId r)).site.backend := by
  have reconciled := calm.reconcile_of_stored stored permits
  obtain ⟨after, left, driven⟩ :=
    calm.carry_reconcilePresent c.intervals.operationTimeout kind stored stays .all
  obtain ⟨t, called, rfl⟩ := drives after left.calm left.backend
  have same : (after.received call (c.resourceId r)).site.backend =
      (b.received call (c.resourceId r)).site.backend := by
    rw [Bench.received, Bench.received, left.backend]
  rw [if_neg (by rw [stays]; exact Bool.false_ne_true), driven, carry_bind called] at reconciled
  rw [reconciled, ← same, ← c.secured_status r]
  exact (left.calm.received call (c.resourceId r)).commit_restates _
    (by rw [c.secured_key]; exact left.found) (c.secured_guards r) t

end Bench

end Steward
