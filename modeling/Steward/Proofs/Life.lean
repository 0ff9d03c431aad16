import Steward.Proofs.Bench

/-!
# What becomes of a resource

What a create and a delete of a resource have come to says all there is to say about a resource
that does not misbehave: the conditions that it went through, what is parked, and how often it was
called.
-/

namespace Steward

open Backend

/-- What a call of the manager has come to. -/
inductive Fate where
  | unasked
  | accepted
  | landed
  deriving DecidableEq

namespace Fate

/-- The conditions that a resource enters, when a call is accepted and when it lands. -/
def conditions (interim final : Condition) : Fate → List Condition
  | unasked => []
  | accepted => [interim]
  | landed => [interim, final]

/-- How many calls there were. -/
def calls : Fate → Nat
  | unasked => 0
  | accepted | landed => 1

theorem calls_le (fate : Fate) : fate.calls ≤ 1 := by
  cases fate <;> decide

end Fate

/-- What the create and the delete of a resource have come to. -/
structure Life where
  create : Fate := .unasked
  delete : Fate := .unasked
  deriving DecidableEq

namespace Life

def conditions (life : Life) : List Condition :=
  life.create.conditions .inProgress .ready ++ life.delete.conditions .deleting .missing

def latest (life : Life) : Condition := life.conditions.getLast?.getD .missing

/-- The condition that is parked; a delete takes the place of a create that did not land. -/
def parked : Life → Option Condition
  | ⟨_, .accepted⟩ => some .missing
  | ⟨.accepted, .unasked⟩ => some .ready
  | _ => none

/-- The operation that was issued last. -/
def operation : Life → Option Mutation
  | ⟨.unasked, .unasked⟩ => none
  | ⟨_, .unasked⟩ => some .create
  | _ => some .delete

/-- What is parked has landed. -/
def complete : Life → Life
  | ⟨create, .accepted⟩ => ⟨create, .landed⟩
  | ⟨.accepted, .unasked⟩ => ⟨.landed, .unasked⟩
  | life => life

/-- A resource that does not misbehave has come this far. -/
structure Fits (life : Life) (resource : Resource) : Prop where
  plainly : resource.behaviours = []
  conditions : resource.conditions = life.conditions
  parked : resource.parked = life.parked
  creates : resource.count .create = life.create.calls
  updates : resource.count .update = 0
  deletes : resource.count .delete = life.delete.calls

variable {life : Life} {resource : Resource}

theorem Fits.latest (fits : life.Fits resource) : resource.latest = life.latest := by
  rw [Resource.latest, Life.latest, fits.conditions]

theorem fits_empty : Fits {} {} := ⟨rfl, rfl, rfl, rfl, rfl, rfl⟩

theorem Fits.complete (fits : life.Fits resource) : life.complete.Fits resource.complete.2 := by
  obtain ⟨plainly, conditions, parked, creates, updates, deletes⟩ := fits
  rw [Resource.complete, parked]
  obtain ⟨create, delete⟩ := life
  cases create <;> cases delete <;>
    exact ⟨plainly, by simp [Resource.enter, conditions, Life.conditions, Fate.conditions,
      Life.complete, Life.parked], by first | rfl | exact parked, creates, updates, deletes⟩

theorem Fits.verified (fits : life.Fits resource) :
    life.Fits (resource.receive .verify).2 := by
  obtain ⟨plainly, conditions, parked, creates, updates, deletes⟩ := fits
  rw [Resource.receive_verify plainly]
  refine ⟨plainly, conditions, parked, ?_, ?_, ?_⟩
  · simpa [Resource.count] using creates
  · simpa [Resource.count] using updates
  · simpa [Resource.count] using deletes

theorem Fits.created (fits : life.Fits resource) (unasked : life = {}) :
    Fits { create := .accepted } (resource.receive .create).2 := by
  subst unasked
  obtain ⟨plainly, conditions, _, creates, updates, deletes⟩ := fits
  rw [Resource.receive_create plainly]
  refine ⟨plainly, ?_, rfl, ?_, ?_, ?_⟩
  · simp [Resource.park, Resource.enter, conditions, Life.conditions, Fate.conditions]
  · simpa [Resource.count, Resource.park, Resource.enter, Fate.calls] using creates
  · simpa [Resource.count, Resource.park, Resource.enter] using updates
  · simpa [Resource.count, Resource.park, Resource.enter, Fate.calls] using deletes

theorem Fits.deleted (fits : life.Fits resource) (unasked : life.delete = .unasked) :
    Fits { life with delete := .accepted } (resource.receive .delete).2 := by
  obtain ⟨plainly, conditions, _, creates, updates, deletes⟩ := fits
  rw [Resource.receive_delete plainly]
  refine ⟨plainly, ?_, rfl, ?_, ?_, ?_⟩
  · simp [Resource.park, Resource.enter, conditions, Life.conditions, Fate.conditions, unasked]
  · simpa [Resource.count, Resource.park, Resource.enter] using creates
  · simpa [Resource.count, Resource.park, Resource.enter] using updates
  · simpa [Resource.count, Resource.park, Resource.enter, Fate.calls, unasked] using deletes

theorem operation_complete (life : Life) : life.complete.operation = life.operation := by
  obtain ⟨create, delete⟩ := life
  cases create <;> cases delete <;> rfl

theorem create_complete (life : Life) :
    life.complete.create = .unasked ↔ life.create = .unasked := by
  obtain ⟨create, delete⟩ := life
  cases create <;> cases delete <;> decide

theorem delete_complete (life : Life) :
    life.complete.delete = .unasked ↔ life.delete = .unasked := by
  obtain ⟨create, delete⟩ := life
  cases create <;> cases delete <;> decide

theorem complete_of_landed (landed : life.delete = .landed) : life.complete = life := by
  obtain ⟨create, delete⟩ := life
  cases landed
  cases create <;> rfl

theorem operation_eq_delete_iff : life.operation = some .delete ↔ life.delete ≠ .unasked := by
  obtain ⟨create, delete⟩ := life
  cases create <;> cases delete <;> decide

theorem eq_empty (unasked : life.create = .unasked) (standing : life.delete = .unasked) :
    life = {} := by
  obtain ⟨create, delete⟩ := life
  cases unasked
  cases standing
  rfl

theorem operation_eq_none_iff : life.operation = none ↔ life = {} := by
  obtain ⟨create, delete⟩ := life
  cases create <;> cases delete <;> decide

theorem latest_of_accepted (accepted : life.delete = .accepted) : life.latest = .deleting := by
  obtain ⟨create, delete⟩ := life
  cases accepted
  cases create <;> rfl

theorem latest_of_landed (landed : life.delete = .landed) : life.latest = .missing := by
  obtain ⟨create, delete⟩ := life
  cases landed
  cases create <;> rfl

/-- A resource that was created and not deleted is being created, or ready. -/
theorem latest_of_created (standing : life.delete = .unasked) (begun : life.create ≠ .unasked) :
    life.latest = .inProgress ∨ life.latest = .ready := by
  obtain ⟨create, delete⟩ := life
  cases standing
  cases create with
  | unasked => exact absurd rfl begun
  | accepted => exact .inl rfl
  | landed => exact .inr rfl

theorem operation_of_created (standing : life.delete = .unasked) (begun : life.create ≠ .unasked) :
    life.operation = some .create := by
  obtain ⟨create, delete⟩ := life
  cases standing
  cases create with
  | unasked => exact absurd rfl begun
  | accepted | landed => rfl

end Life

end Steward
