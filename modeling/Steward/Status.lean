import Std.Data.ExtTreeMap
import Steward.Layout

/-!
# Status of a record

A status says in which phase of its life a record is, why, and which operation was last issued for
it; beside these it carries the payload, the fields that the resource manager reported.  Status and
payload are written into one map, so the three names of the status' own fields are reserved: merging
a payload skips them, and reading finds them in no payload.
-/

namespace Steward

inductive Phase where
  /-- A referenced record is not ready yet. -/
  | pending
  /-- An apply or a delete awaits verification. -/
  | inProgress
  /-- The external resource matches the declared one. -/
  | succeeded
  /-- The last cycle failed; the message says why. -/
  | failed
  deriving DecidableEq, Repr

namespace Phase

instance : Named Phase where
  all := [pending, inProgress, succeeded, failed]
  name
    | pending => "Pending"
    | inProgress => "InProgress"
    | succeeded => "Succeeded"
    | failed => "Failed"

/-- The phase changes only when the resource drifts or someone edits the record. -/
def isSettled : Phase → Bool
  | succeeded | failed => true
  | pending | inProgress => false

end Phase

/-- The operations that change an external resource. -/
inductive Mutation where
  | create
  | update
  | delete
  deriving DecidableEq, Repr

namespace Mutation

instance : Named Mutation where
  all := [create, update, delete]
  name
    | create => "Create"
    | update => "Update"
    | delete => "Delete"

def verb : Mutation → String
  | create => "create"
  | update => "update"
  | delete => "delete"

def progressive : Mutation → String
  | create => "creating"
  | update => "updating"
  | delete => "deleting"

def past : Mutation → String
  | create => "created"
  | update => "updated"
  | delete => "deleted"

end Mutation

/-- The fields that a resource manager reports, by name. -/
abbrev Payload : Type := Std.ExtTreeMap String Value compare

namespace Payload

/-- The fields of a map; of two with one name the later counts. -/
def ofEntries (entries : List (String × Value)) : Payload :=
  entries.foldl (fun payload (name, value) => payload.insert name value) ∅

end Payload

/-- The most characters that a status message keeps. -/
def messageLimit : Nat := 512

def clipped (message : String) : String :=
  String.ofList (message.toList.take messageLimit)

structure Status where
  phase : Option Phase := none
  message : String := ""
  /-- The last operation issued for the record. -/
  operation : Option Mutation := none
  payload : Payload := ∅
  deriving DecidableEq

namespace Status

def reserved : List String := ["state", "message", "operation"]

def isSucceeded (status : Status) : Bool := status.phase == some .succeeded

/-- Adds the fields of `entries` to the payload, those with a reserved name left out. -/
def merge (status : Status) (entries : Payload) : Status :=
  { status with
    payload := entries.toList.foldl
      (fun payload (name, value) =>
        if name ∈ reserved then payload else payload.insert name value)
      status.payload }

/-! ## Layout -/

/-- A case that may be absent or null. -/
def readCase? {ε : Type} [Named ε] : Option Value → Option (Option ε)
  | none | some .null => some none
  | some v => (Named.read? v).map some

def ofValue? (v : Value) : Option Status := do
  let entries ← v.entries?
  let phase ← readCase? (entries.lookup "state")
  let message ← Source.orElse "" Value.text? (entries.lookup "message")
  let operation ← readCase? (entries.lookup "operation")
  let payload := Payload.ofEntries (entries.filter fun entry => entry.1 ∉ reserved)
  return { phase, message, operation, payload }

/-- The status' own fields as they are written: absent ones are left out, the message never is. -/
def ownFields (status : Status) : List (String × Value) :=
  (status.phase.toList.map fun phase => ("state", .text (Named.name phase))) ++
  ("message", .text status.message) ::
  (status.operation.toList.map fun operation => ("operation", .text (Named.name operation)))

def toValue (status : Status) : Value :=
  .map (status.ownFields ++ status.payload.toList)

end Status

end Steward
