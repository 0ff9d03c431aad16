import Steward.Fault
import Steward.Record

/-!
# References and readiness

A record may name an owner and, in order, further records that it depends on.  It is looked at only
when all of them are ready; by default a referenced record is ready once it succeeded.
-/

namespace Steward

structure Reference where
  key : Key
  /-- The rule that makes the referenced record ready. -/
  isReady : Status → Bool := Status.isSucceeded

structure References where
  owner : Option Reference := none
  dependencies : List Reference := []

inductive Role where
  | owner
  | dependency
  deriving DecidableEq, Repr

namespace Role

def text : Role → String
  | owner => "owner"
  | dependency => "dependency"

end Role

namespace References

/-- Every reference with its role: the owner first, then the dependencies in order. -/
def all (refs : References) : List (Role × Reference) :=
  (refs.owner.toList.map fun ref => (.owner, ref)) ++
  (refs.dependencies.map fun ref => (.dependency, ref))

def isEmpty (refs : References) : Bool := refs.owner.isNone && refs.dependencies.isEmpty

end References

inductive Readiness where
  | ready
  /-- The referenced record does not exist. -/
  | missing (role : Role) (key : Key)
  /-- The referenced record exists and is not ready. -/
  | notReady (role : Role) (key : Key)
  deriving DecidableEq, Repr

namespace Readiness

def isReady : Readiness → Bool
  | ready => true
  | missing _ _ | notReady _ _ => false

/-- Why the record has to wait. -/
def message : Readiness → String
  | ready => ""
  | missing role key => s!"waiting for {role.text} '{key.text}' to be created"
  | notReady role key => s!"waiting for {role.text} '{key.text}' to be ready"

/-- What the status of one reference says; nothing when it is ready. -/
def ofStatus (role : Role) (ref : Reference) : Option Status → Option Readiness
  | none => some (.missing role ref.key)
  | some status => if ref.isReady status then none else some (.notReady role ref.key)

/-- Reads the statuses of references in order and stops at the first that cannot be read, is absent
or is not ready. -/
def check {m : Type → Type} [Monad m] (readStatus : Key → m (Except Fault (Option Status))) :
    List (Role × Reference) → m (Except Fault Readiness)
  | [] => pure (.ok .ready)
  | (role, ref) :: rest => do
      match ← readStatus ref.key with
      | .error fault => pure (.error fault)
      | .ok status =>
          match ofStatus role ref status with
          | some readiness => pure (.ok readiness)
          | none => check readStatus rest

end Readiness

end Steward
