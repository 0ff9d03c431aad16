import Steward.Layout

/-!
# Behaviours of the simulated backend

A behaviour overrides what the backend does for a window of calls of one kind.  The window opens
after a number of earlier calls of that kind and stays open for a number of calls, or for good when
that number is zero.  Its far end is counted with a ceiling.
-/

namespace Steward.Backend

/-- The kinds of calls that the backend receives. -/
inductive Request where
  | create
  | verify
  | update
  | delete
  deriving DecidableEq, Repr

instance : Named Request where
  all := [.create, .verify, .update, .delete]
  name
    | .create => "Create"
    | .verify => "Verify"
    | .update => "Update"
    | .delete => "Delete"

/-- What the backend does when it is called. -/
inductive Reaction where
  /-- Record that the creation is under way and park its success. -/
  | createAsync
  | createSync
  | createFail
  /-- Record that the creation is under way and park its failure. -/
  | createCompleteFail
  | updateSync
  /-- Record that the update is under way and park its success. -/
  | updateAsync
  | updateFail
  /-- Record that the deletion is under way and park its success. -/
  | deleteAsync
  | deleteSync
  /-- Fail without touching the resource. -/
  | deleteFail
  /-- Report the latest condition. -/
  | verifyStandard
  | verifyFail
  | verifyNeedsUpdate
  deriving DecidableEq, Repr

namespace Reaction

instance : Named Reaction where
  all := [createAsync, createSync, createFail, createCompleteFail, updateSync, updateAsync,
    updateFail, deleteAsync, deleteSync, deleteFail, verifyStandard, verifyFail,
    verifyNeedsUpdate]
  name
    | createAsync => "CreateAsync"
    | createSync => "CreateSync"
    | createFail => "CreateFail"
    | createCompleteFail => "CreateCompleteFail"
    | updateSync => "UpdateSync"
    | updateAsync => "UpdateAsync"
    | updateFail => "UpdateFail"
    | deleteAsync => "DeleteAsync"
    | deleteSync => "DeleteSync"
    | deleteFail => "DeleteFail"
    | verifyStandard => "VerifyStandard"
    | verifyFail => "VerifyFail"
    | verifyNeedsUpdate => "VerifyNeedsUpdate"

/-- The kind of call that the reaction answers. -/
def request : Reaction → Request
  | createAsync | createSync | createFail | createCompleteFail => .create
  | updateSync | updateAsync | updateFail => .update
  | deleteAsync | deleteSync | deleteFail => .delete
  | verifyStandard | verifyFail | verifyNeedsUpdate => .verify

/-- The reaction to a call that no behaviour covers. -/
def default : Request → Reaction
  | .create => createAsync
  | .update => updateSync
  | .verify => verifyStandard
  | .delete => deleteAsync

/-- The reaction leaves a condition parked. -/
def isAsync : Reaction → Bool
  | createAsync | createCompleteFail | updateAsync | deleteAsync => true
  | _ => false

end Reaction

structure Behaviour where
  reaction : Reaction
  /-- How many calls of the same kind come before the window. -/
  start : Nat := 0
  /-- How many calls the window covers; zero keeps it open. -/
  width : Nat := 0
  deriving DecidableEq, Repr

namespace Behaviour

/-- The call that follows `prior` calls of the same kind falls into the window. -/
def covers (b : Behaviour) (prior : Nat) : Bool :=
  decide (b.start ≤ prior) && (b.width == 0 || decide (prior < Counter.add b.start b.width))

/-- The reaction to a call of a kind that `prior` calls of that kind came before: the last behaviour
that covers it decides. -/
def select (behaviours : List Behaviour) (request : Request) (prior : Nat) : Reaction :=
  match behaviours.reverse.find? fun b => b.reaction.request == request && b.covers prior with
  | some b => b.reaction
  | none => Reaction.default request

def fieldNames : List String := ["operation", "from", "count"]

def read? {δ : Type} [Source δ] (d : δ) : Option Behaviour := do
  let field ← Source.fields? fieldNames d
  let reaction ← field "operation" >>= Named.read?
  let start ← Source.orElse 0 Source.nat? (field "from")
  let width ← Source.orElse 0 Source.nat? (field "count")
  return { reaction, start, width }

def toValue (b : Behaviour) : Value :=
  .map [("operation", .text (Named.name b.reaction)), ("from", .int b.start),
    ("count", .int b.width)]

end Behaviour

end Steward.Backend
