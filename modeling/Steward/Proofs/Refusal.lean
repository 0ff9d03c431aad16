import Steward.Reconcile

/-!
# A refused query ends a reconcile

A reconcile does not work around a store that refuses something: whichever of its queries is
refused, it asks and calls nothing more and ends with the fault that it was given.
-/

namespace Steward

variable {σ α β : Type}

/-- The answer of a store that refuses the query. -/
def Query.refusal : (query : Query σ) → Fault → query.Answer
  | .read _, fault | .writeMetadata _, fault | .writeStatus _, fault | .readStatus _, fault =>
      .error fault

namespace Procedure

/-- Wherever a query is refused, the procedure ends with the fault. -/
def Heeds : Procedure σ (Except Fault α) → Prop
  | done _ => True
  | ask query resume =>
      (∀ fault, resume (query.refusal fault) = done (.error fault)) ∧
        ∀ answer, (resume answer).Heeds
  | call _ _ _ resume => ∀ ending, (resume ending).Heeds
  | report _ next => next.Heeds

/-- A procedure that goes on with its result, unless that is a fault. -/
theorem Heeds.bind {p : Procedure σ (Except Fault α)}
    {next : Except Fault α → Procedure σ (Except Fault β)} (heeds : p.Heeds)
    (stops : ∀ fault, next (.error fault) = done (.error fault))
    (onward : ∀ a, (next (.ok a)).Heeds) : (p.bind next).Heeds := by
  induction p with
  | done result =>
      cases result with
      | ok a => exact onward a
      | error fault =>
          rw [Procedure.bind, stops]
          exact trivial
  | ask query resume ih =>
      refine ⟨fun fault => ?_, fun answer => ih answer (heeds.2 answer)⟩
      change (resume (query.refusal fault)).bind next = _
      rw [heeds.1 fault]
      exact stops fault
  | call _ _ _ resume ih => exact fun ending => ih ending (heeds ending)
  | report _ _ ih => exact ih heeds

end Procedure

namespace Attempt

def Heeds (x : Attempt σ α) : Prop := Procedure.Heeds x.run

theorem Heeds.bind {x : Attempt σ α} {f : α → Attempt σ β} (heeds : x.Heeds)
    (onward : ∀ a, (f a).Heeds) : (x >>= f).Heeds :=
  Procedure.Heeds.bind heeds (fun _ => rfl) onward

theorem heeds_pure (a : α) : (pure a : Attempt σ α).Heeds := trivial

theorem heeds_throw (fault : Fault) : (throw fault : Attempt σ α).Heeds := trivial

theorem heeds_read (key : Key) : (read key : Attempt σ _).Heeds :=
  ⟨fun _ => rfl, fun _ => trivial⟩

theorem heeds_writeMetadata (r : Record σ) : (writeMetadata r).Heeds :=
  ⟨fun _ => rfl, fun _ => trivial⟩

theorem heeds_writeStatus (r : Record σ) : (writeStatus r).Heeds :=
  ⟨fun _ => rfl, fun _ => trivial⟩

theorem heeds_report (event : Event) : (report event : Attempt σ Unit).Heeds := trivial

theorem heeds_call (k : Call) (id : String) (spec : σ) (budget : Nat) :
    (call k id spec budget).Heeds := by
  intro ending
  cases ending <;> exact trivial

end Attempt

namespace Controller

open Attempt

variable {c : Controller σ}

theorem commit_heeds (r : Record σ) (t : Transition) : (c.commit r t).Heeds := by
  rw [commit]
  split
  · refine .bind (heeds_writeStatus _) fun _ => ?_
    split
    · exact .bind (heeds_report _) fun _ => heeds_pure _
    · exact heeds_pure _
  · exact heeds_pure _

theorem apply_heeds (operation : Mutation) (r : Record σ) (permissions : Permissions) :
    (c.apply operation r permissions).Heeds := by
  rw [apply]
  split
  · exact heeds_pure _
  split
  · exact .bind (heeds_call _ _ _ _) fun _ => heeds_pure _
  · exact .bind (heeds_call _ _ _ _) fun _ => heeds_pure _

theorem drive_heeds (r : Record σ) (permissions : Permissions) :
    (c.drive r permissions).Heeds := by
  rw [drive]
  split
  · exact apply_heeds _ r permissions
  refine .bind (heeds_call _ _ _ _) fun answer => ?_
  split
  · exact heeds_pure _
  split
  · exact heeds_pure _
  · exact apply_heeds _ r permissions

theorem check_heeds (refs : List (Role × Reference)) :
    Procedure.Heeds (Readiness.check (Attempt.readStatus (σ := σ)) refs) := by
  induction refs with
  | nil => exact trivial
  | cons entry rest ih =>
      obtain ⟨role, ref⟩ := entry
      refine ⟨fun _ => rfl, fun answer => ?_⟩
      cases answer with
      | error fault => exact trivial
      | ok status =>
          simp only [Procedure.bind]
          split
          · exact trivial
          · exact ih

theorem ensureFinalizer_heeds (r : Record σ) : (c.ensureFinalizer r).Heeds := by
  rw [ensureFinalizer]
  split
  · exact heeds_pure _
  · exact heeds_writeMetadata _

theorem reconcilePresent_heeds (r : Record σ) (permissions : Permissions) :
    (c.reconcilePresent r permissions).Heeds := by
  rw [reconcilePresent]
  refine .bind (ensureFinalizer_heeds r) fun r => ?_
  split
  · exact commit_heeds _ _
  · exact heeds_throw _
  refine .bind (check_heeds _) fun readiness => ?_
  split
  · exact .bind (drive_heeds _ _) fun t => commit_heeds _ _
  · exact commit_heeds _ _

theorem release_heeds (r : Record σ) : (c.release r).Heeds := by
  rw [release]
  split
  · exact .bind (heeds_writeMetadata _) fun _ => .bind (heeds_report _) fun _ => heeds_pure _
  · exact heeds_pure _

theorem advanceDeletion_heeds (r : Record σ) (progress : DeletionProgress) :
    (c.advanceDeletion r progress).Heeds := by
  unfold advanceDeletion
  split
  · exact release_heeds r
  · exact commit_heeds _ _
  · exact commit_heeds _ _
  · exact commit_heeds _ _

theorem issueDelete_heeds (r : Record σ) : (c.issueDelete r).Heeds := by
  rw [issueDelete]
  refine .bind (heeds_call _ _ _ _) fun answer => ?_
  split <;> exact advanceDeletion_heeds _ _

theorem verifyDelete_heeds (r : Record σ) : (c.verifyDelete r).Heeds := by
  rw [verifyDelete]
  refine .bind (heeds_call _ _ _ _) fun answer => ?_
  split
  · exact advanceDeletion_heeds _ _
  split
  · exact issueDelete_heeds r
  · exact advanceDeletion_heeds _ _

theorem reconcileDeletion_heeds (r : Record σ) (permissions : Permissions) :
    (c.reconcileDeletion r permissions).Heeds := by
  rw [reconcileDeletion]
  split
  · exact heeds_pure _
  · exact .bind (heeds_report _) fun _ => release_heeds r
  · exact issueDelete_heeds r
  · exact verifyDelete_heeds r

/-- A reconcile ends with the fault of the first query that is refused. -/
theorem reconcile_heeds (c : Controller σ) (key : Key) : (c.reconcile key).Heeds := by
  rw [reconcile]
  refine .bind (heeds_read key) fun found => ?_
  split
  · exact heeds_pure _
  split
  · exact reconcileDeletion_heeds _ _
  · exact reconcilePresent_heeds _ _

end Controller

end Steward
