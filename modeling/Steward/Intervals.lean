import Steward.Fault
import Steward.Layout

/-!
# Intervals

How long the engine waits before it looks at a record again, by the phase it left it in, and how
long a manager call may take.  All four are whole milliseconds and none may be zero.
-/

namespace Steward

structure Intervals where
  /-- While pending or in progress. -/
  requeueAfter : Nat := 5000
  requeueAfterSuccess : Nat := 15000
  requeueAfterFailure : Nat := 30000
  /-- The budget of one manager call. -/
  operationTimeout : Nat := 30000
  deriving DecidableEq, Repr

namespace Intervals

def fieldNames : List String :=
  ["requeue_after", "requeue_after_success", "requeue_after_failure", "operation_timeout"]

def fields (i : Intervals) : List (String × Nat) :=
  fieldNames.zip [i.requeueAfter, i.requeueAfterSuccess, i.requeueAfterFailure, i.operationTimeout]

/-- Refuses intervals of zero length; the fault names the first. -/
def validate (i : Intervals) : Except Fault Intervals :=
  match i.fields.find? fun field => field.2 == 0 with
  | none => .ok i
  | some (name, _) => .error (.invalidConfig s!"{name} must be positive")

def read? {δ : Type} [Source δ] (d : δ) : Option Intervals := do
  let field ← Source.fields? fieldNames d
  let default : Intervals := {}
  let requeueAfter ← Source.orElse default.requeueAfter Source.nat? (field "requeue_after")
  let requeueAfterSuccess ←
    Source.orElse default.requeueAfterSuccess Source.nat? (field "requeue_after_success")
  let requeueAfterFailure ←
    Source.orElse default.requeueAfterFailure Source.nat? (field "requeue_after_failure")
  let operationTimeout ←
    Source.orElse default.operationTimeout Source.nat? (field "operation_timeout")
  return { requeueAfter, requeueAfterSuccess, requeueAfterFailure, operationTimeout }

/-- The intervals as they are written: one that is too long for a word is cut to the longest. -/
def written (i : Intervals) : List (String × Nat) :=
  i.fields.map fun (name, n) => (name, Counter.capped n)

end Intervals

end Steward
