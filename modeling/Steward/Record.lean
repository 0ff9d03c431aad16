import Steward.Instant
import Steward.Key
import Steward.Status

/-!
# Records

A record declares one external resource: metadata, the specification of what is wanted, and the
status that was last seen.  The specification is a parameter, so one engine serves every kind; all
it has to offer here is a written layout.
-/

namespace Steward

/-- Text filed under names. -/
abbrev Annotations : Type := Std.ExtTreeMap String String compare

structure Metadata where
  key : Key
  annotations : Annotations := ∅
  finalizers : List String := []
  /-- When deletion was asked for, if it was. -/
  deletionRequestedAt : Option Instant := none
  /-- Grows with every write; a write must name the version that it is based on. -/
  resourceVersion : Nat := 0
  /-- Grows with every change of the specification. -/
  generation : Nat := 0
  deriving DecidableEq

structure Record (σ : Type) where
  metadata : Metadata
  spec : σ
  status : Status := {}
  deriving DecidableEq

namespace Metadata

def isDeletionRequested (m : Metadata) : Bool := m.deletionRequestedAt.isSome

end Metadata

namespace Record

variable {σ : Type}

def key (r : Record σ) : Key := r.metadata.key

end Record

/-! ## Layout -/

/-- A specification that can be read from any document and written as a structured value. -/
class Layout (σ : Type) where
  read? {δ : Type} [Source δ] : δ → Option σ
  write : σ → Value

namespace Annotations

def ofEntries (entries : List (String × String)) : Annotations :=
  entries.foldl (fun annotations (name, value) => annotations.insert name value) ∅

def read? {δ : Type} [Source δ] (d : δ) : Option Annotations := do
  let entries ← Source.entries? d
  let entries ← entries.mapM fun (name, value) => (Source.text? value).map fun s => (name, s)
  return ofEntries entries

def toValue (annotations : Annotations) : Value :=
  .map (annotations.toList.map fun (name, value) => (name, .text value))

end Annotations

namespace Value

/-- A list of texts. -/
def texts (items : List String) : Value := .list (items.map .text)

/-- A field that is written unless it is empty. -/
def unlessEmpty (empty : Bool) (name : String) (v : Value) : List (String × Value) :=
  if empty then [] else [(name, v)]

end Value

namespace Metadata

def fieldNames : List String :=
  ["name", "namespace", "annotations", "finalizers", "deletionRequestedAt", "resourceVersion",
    "generation"]

/-- An instant that may be absent or null. -/
def readInstant? : Option Value → Option (Option Instant)
  | none | some .null => some none
  | some v => (v.text? >>= Instant.ofText?).map some

def ofValue? (v : Value) : Option Metadata := do
  let field ← v.fields? fieldNames
  let name ← field "name" >>= Value.text?
  let ns ← field "namespace" >>= Value.text?
  let annotations ← Source.orElse ∅ Annotations.read? (field "annotations")
  let finalizers ← Source.orElse [] (Source.listOf? Value.text?) (field "finalizers")
  let deletionRequestedAt ← readInstant? (field "deletionRequestedAt")
  let resourceVersion ← Source.orElse 0 Source.nat? (field "resourceVersion")
  let generation ← Source.orElse 0 Source.nat? (field "generation")
  return { key := ⟨ns, name⟩, annotations, finalizers, deletionRequestedAt, resourceVersion,
           generation }

def toValue (m : Metadata) : Value :=
  .map <|
    [("name", .text m.key.name), ("namespace", .text m.key.ns)] ++
    Value.unlessEmpty m.annotations.isEmpty "annotations" m.annotations.toValue ++
    Value.unlessEmpty m.finalizers.isEmpty "finalizers" (Value.texts m.finalizers) ++
    (m.deletionRequestedAt.toList.map fun t => ("deletionRequestedAt", .text t.text)) ++
    [("resourceVersion", .int m.resourceVersion), ("generation", .int m.generation)]

end Metadata

namespace Record

variable {σ : Type} [Layout σ]

def ofValue? (v : Value) : Option (Record σ) := do
  let field ← v.fields? ["metadata", "spec", "status"]
  let metadata ← field "metadata" >>= Metadata.ofValue?
  let spec ← field "spec" >>= Layout.read?
  let status ← Source.orElse {} Status.ofValue? (field "status")
  return { metadata, spec, status }

def toValue (r : Record σ) : Value :=
  .map [("metadata", r.metadata.toValue), ("spec", Layout.write r.spec),
    ("status", r.status.toValue)]

end Record

end Steward
