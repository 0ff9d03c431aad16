import Steward.Backend.Behaviour
import Steward.Kinds
import Steward.Yaml.Document

/-!
# Manifests

A manifest declares records of both sample kinds, and how the simulated backend behaves for some
resources.  It is read from a YAML document or from a structured value; within one kind no key may be
declared twice.
-/

namespace Steward

/-- One declared record. -/
structure Entry (σ : Type) where
  key : Key
  annotations : Annotations := ∅
  spec : σ
  deriving DecidableEq

namespace Entry

variable {σ : Type} [Layout σ]

/-- The namespace of an entry that names none. -/
def defaultNamespace : String := "default"

def fieldNames : List String := ["name", "namespace", "annotations", "spec"]

def read? {δ : Type} [Source δ] (d : δ) : Option (Entry σ) := do
  let field ← Source.fields? fieldNames d
  let name ← field "name" >>= Source.text?
  let ns ← Source.orElse defaultNamespace Source.text? (field "namespace")
  let annotations ← Source.orElse ∅ Annotations.read? (field "annotations")
  let spec ← field "spec" >>= Layout.read?
  return { key := ⟨ns, name⟩, annotations, spec }

def toValue (e : Entry σ) : Value :=
  .map [("name", .text e.key.name), ("namespace", .text e.key.ns),
    ("annotations", e.annotations.toValue), ("spec", Layout.write e.spec)]

omit [Layout σ] in
/-- The record that an entry declares. -/
def toRecord (e : Entry σ) : Record σ :=
  { metadata := { key := e.key, annotations := e.annotations }, spec := e.spec }

end Entry

structure Manifest where
  plain : List (Entry Plain) := []
  linked : List (Entry Linked) := []
  /-- What to add to the behaviours of some resources. -/
  behaviours : Std.ExtTreeMap String (List Backend.Behaviour) compare := ∅

/-- Why a manifest is refused. -/
inductive ManifestError where
  | malformed
  | duplicate (kind : String) (key : Key)
  deriving DecidableEq, Repr

namespace ManifestError

def message : ManifestError → String
  | malformed => "Failed to parse manifest"
  | duplicate kind key => s!"duplicate {kind} instance {key.text}"

end ManifestError

namespace Manifest

def fieldNames : List String := ["a", "b", "behaviours"]

def readBehaviours? {δ : Type} [Source δ] (d : δ) :
    Option (Std.ExtTreeMap String (List Backend.Behaviour) compare) := do
  let entries ← Source.entries? d
  let entries ← entries.mapM fun (id, items) =>
    (Source.listOf? Backend.Behaviour.read? items).map fun behaviours => (id, behaviours)
  return entries.foldl (fun all (id, behaviours) => all.insert id behaviours) ∅

def read? {δ : Type} [Source δ] (d : δ) : Option Manifest := do
  let field ← Source.fields? fieldNames d
  let plain ← Source.orElse [] (Source.listOf? Entry.read?) (field "a")
  let linked ← Source.orElse [] (Source.listOf? Entry.read?) (field "b")
  let behaviours ← Source.orElse ∅ readBehaviours? (field "behaviours")
  return { plain, linked, behaviours }

def toValue (m : Manifest) : Value :=
  .map [("a", .list (m.plain.map Entry.toValue)), ("b", .list (m.linked.map Entry.toValue)),
    ("behaviours", .map (m.behaviours.toList.map fun (id, behaviours) =>
      (id, .list (behaviours.map Backend.Behaviour.toValue))))]

def size (m : Manifest) : Nat := m.plain.length + m.linked.length

/-- The first key of a list that occurred before. -/
def firstRepeated? (seen : List Key) : List Key → Option Key
  | [] => none
  | key :: rest => if key ∈ seen then some key else firstRepeated? (key :: seen) rest

/-- Refuses keys that are declared twice within a kind. -/
def validate (m : Manifest) : Except ManifestError Manifest :=
  match firstRepeated? [] (m.plain.map Entry.key) with
  | some key => .error (.duplicate "a" key)
  | none =>
      match firstRepeated? [] (m.linked.map Entry.key) with
      | some key => .error (.duplicate "b" key)
      | none => .ok m

/-- Reads a manifest from a YAML document and validates it. -/
def ofYaml (text : String) : Except ManifestError Manifest :=
  match Yaml.ofText? text >>= read? with
  | none => .error .malformed
  | some m => m.validate

end Manifest

end Steward
