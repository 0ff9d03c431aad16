import Steward.Status

/-!
# Calls of a resource manager

A manager creates, updates, probes and deletes external resources.  Each call has a result of its
own; it may also fail with a message of the manager's.
-/

namespace Steward

/-- The condition in which a probe finds the external resource. -/
inductive Condition where
  | missing
  | inProgress
  | ready
  | updateRequired
  | deleting
  | error
  deriving DecidableEq, Repr

instance : Named Condition where
  all := [.missing, .inProgress, .ready, .updateRequired, .deleting, .error]
  name
    | .missing => "Missing"
    | .inProgress => "InProgress"
    | .ready => "Ready"
    | .updateRequired => "UpdateRequired"
    | .deleting => "Deleting"
    | .error => "Error"

/-- The outcome of a create or an update. -/
inductive ApplyResult where
  | succeeded
  | awaitingVerification
  | error
  deriving DecidableEq, Repr

instance : Named ApplyResult where
  all := [.succeeded, .awaitingVerification, .error]
  name
    | .succeeded => "Succeeded"
    | .awaitingVerification => "AwaitingVerification"
    | .error => "Error"

/-- The outcome of a delete. -/
inductive DeleteResult where
  | succeeded
  | awaitingVerification
  | error
  deriving DecidableEq, Repr

instance : Named DeleteResult where
  all := [.succeeded, .awaitingVerification, .error]
  name
    | .succeeded => "Succeeded"
    | .awaitingVerification => "AwaitingVerification"
    | .error => "Error"

/-- A result together with fields for the status. -/
structure Response (ρ : Type) where
  result : ρ
  payload : Option Payload := none
  deriving DecidableEq

inductive Call where
  | create
  | update
  | verify
  | delete
  deriving DecidableEq, Repr

namespace Call

instance : Named Call where
  all := [create, update, verify, delete]
  name
    | create => "create"
    | update => "update"
    | verify => "verify"
    | delete => "delete"

abbrev Answer : Call → Type
  | create | update => Response ApplyResult
  | verify => Response Condition
  | delete => DeleteResult

/-- How a call ends: with an answer, with a failure that the manager words, or, when its budget runs
out first, not at all. -/
abbrev Ending (call : Call) : Type := Option (Except String call.Answer)

end Call

end Steward
