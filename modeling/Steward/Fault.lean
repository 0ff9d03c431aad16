import Steward.Key

/-!
# Faults

What stops a reconcile, a store access or a set-up.  A stale write, a store that cannot answer and a
call that overran its budget may go away when the whole reconcile is done again later; the other
faults need someone to change something first.
-/

namespace Steward

inductive Fault where
  | notFound (key : Key)
  | alreadyExists (key : Key)
  | conflict (key : Key) (expected actual : Nat)
  | store (operation reason : String)
  /-- A manager call that did not answer within `budget` milliseconds. -/
  | timeout (operation id : String) (budget : Nat)
  | invalidInstance (key : Key) (reason : String)
  | invalidConfig (reason : String)
  | loopStopped
  deriving DecidableEq, Repr

namespace Fault

def message : Fault → String
  | notFound key => s!"instance '{key.text}' not found"
  | alreadyExists key => s!"instance '{key.text}' already exists"
  | conflict key expected actual =>
      s!"conflict writing instance '{key.text}': expected version {expected}, found {actual}"
  | store operation reason => s!"store operation '{operation}' failed: {reason}"
  | timeout operation id budget => s!"operation '{operation}' on '{id}' timed out after {budget}ms"
  | invalidInstance key reason => s!"invalid instance '{key.text}': {reason}"
  | invalidConfig reason => s!"invalid configuration: {reason}"
  | loopStopped => "reconciliation loop stopped"

/-- The name of the kind of fault. -/
def label : Fault → String
  | notFound _ => "NotFound"
  | alreadyExists _ => "AlreadyExists"
  | conflict _ _ _ => "Conflict"
  | store _ _ => "Store"
  | timeout _ _ _ => "Timeout"
  | invalidInstance _ _ => "InvalidInstance"
  | invalidConfig _ => "InvalidConfig"
  | loopStopped => "LoopStopped"

def isConflict : Fault → Bool
  | conflict _ _ _ => true
  | _ => false

/-- Doing the whole reconcile again later can succeed. -/
def isRetryable : Fault → Bool
  | conflict _ _ _ | store _ _ | timeout _ _ _ => true
  | _ => false

end Fault

end Steward
