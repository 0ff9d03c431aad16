import Steward.Manager
import Steward.Permissions

/-!
# Finalizers and deletion

A finalizer is a name in a record's metadata that keeps the store from dropping the record.  The
engine adds its own before it touches the external resource and removes it only when that resource
is known to be gone, or when deleting it is not permitted.  What a deletion does next follows from
the record alone (`DeletionPlan`), and how far it got from one answer of the manager
(`DeletionProgress`).
-/

namespace Steward

namespace Metadata

def hasFinalizer (m : Metadata) (name : String) : Bool := m.finalizers.contains name

def addFinalizer (m : Metadata) (name : String) : Metadata :=
  if m.hasFinalizer name then m else { m with finalizers := m.finalizers ++ [name] }

/-- Removes every mention of the finalizer. -/
def removeFinalizer (m : Metadata) (name : String) : Metadata :=
  { m with finalizers := m.finalizers.filter (· != name) }

end Metadata

/-- What the deletion of a record does next. -/
inductive DeletionPlan where
  /-- The finalizer is gone; the store drops the record. -/
  | nothing
  /-- Deleting is not permitted: drop the finalizer and leave the resource in place. -/
  | releaseWithoutDelete
  | delete
  /-- A delete was issued before: see what became of it. -/
  | verifyDelete
  deriving DecidableEq, Repr

namespace DeletionPlan

def next (metadata : Metadata) (status : Status) (permissions : Permissions)
    (finalizer : String) : DeletionPlan :=
  if !metadata.hasFinalizer finalizer then .nothing
  else if !permissions.allows .delete then .releaseWithoutDelete
  else if status.operation = some .delete then .verifyDelete
  else .delete

end DeletionPlan

/-- Where a deletion stands after a call of the manager. -/
inductive DeletionProgress where
  | confirmed
  | inProgress
  /-- The resource is still there: issue the delete again. -/
  | reissue
  | failed (message : String)
  deriving DecidableEq, Repr

namespace DeletionProgress

def afterDelete : DeleteResult → DeletionProgress
  | .succeeded => .confirmed
  | .awaitingVerification => .inProgress
  | .error => .failed "error deleting resource"

/-- After a probe: a resource that still looks present is deleted again only when the last attempt
failed, otherwise the accepted delete is waited for. -/
def afterVerify (found : Condition) (attemptFailed : Bool) : DeletionProgress :=
  match found with
  | .missing => .confirmed
  | .ready | .updateRequired => if attemptFailed then .reissue else .inProgress
  | .deleting | .inProgress => .inProgress
  | .error => .failed "failed to verify resource deletion"

end DeletionProgress

end Steward
