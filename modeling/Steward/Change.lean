import Steward.Key
import Steward.Status

/-!
# Changes and events

A store announces a change for every write that went through; the engine reports an event for what
the people in charge of a resource should see.
-/

namespace Steward

inductive ChangeKind where
  | added
  | modified
  | deleted
  deriving DecidableEq, Repr

instance : Named ChangeKind where
  all := [.added, .modified, .deleted]
  name
    | .added => "Added"
    | .modified => "Modified"
    | .deleted => "Deleted"

structure Change where
  kind : ChangeKind
  key : Key
  deriving DecidableEq, Repr

inductive Severity where
  | normal
  | warning
  deriving DecidableEq, Repr

instance : Named Severity where
  all := [.normal, .warning]
  name
    | .normal => "Normal"
    | .warning => "Warning"

structure Event where
  kind : String
  key : Key
  severity : Severity
  reason : String
  message : String
  deriving DecidableEq, Repr

end Steward
