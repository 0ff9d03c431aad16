import Steward.Controller

/-!
# The two sample kinds

A plain record stands alone.  A linked record may name an owner and depends on a list of others, all
of them plain records in its own namespace; an empty owner name means that there is none, and an
empty name among the dependencies makes the record invalid.
-/

namespace Steward

structure Plain where
  id : String
  stringData : String := ""
  intData : Int := 0
  deriving DecidableEq, Repr

structure Linked where
  id : String
  stringData : String := ""
  intData : Int := 0
  owner : String := ""
  dependencies : List String := []
  deriving DecidableEq, Repr

namespace Plain

def fieldNames : List String := ["id", "stringData", "intData"]

instance : Layout Plain where
  read? d := do
    let field ← Source.fields? fieldNames d
    let id ← field "id" >>= Source.text?
    let stringData ← Source.orElse "" Source.text? (field "stringData")
    let intData ← Source.orElse 0 Source.int? (field "intData")
    return { id, stringData, intData }
  write p :=
    .map <|
      [("id", .text p.id)] ++
      Value.unlessEmpty p.stringData.isEmpty "stringData" (.text p.stringData) ++
      [("intData", .int p.intData)]

def definition : Definition Plain where
  kind := "A"
  finalizer := "a.finalizers.com"
  resourceId := id

end Plain

namespace Linked

def fieldNames : List String := ["id", "stringData", "intData", "owner", "dependencies"]

instance : Layout Linked where
  read? d := do
    let field ← Source.fields? fieldNames d
    let id ← field "id" >>= Source.text?
    let stringData ← Source.orElse "" Source.text? (field "stringData")
    let intData ← Source.orElse 0 Source.int? (field "intData")
    let owner ← Source.orElse "" Source.text? (field "owner")
    let dependencies ← Source.orElse [] (Source.listOf? Source.text?) (field "dependencies")
    return { id, stringData, intData, owner, dependencies }
  write l :=
    .map <|
      [("id", .text l.id)] ++
      Value.unlessEmpty l.stringData.isEmpty "stringData" (.text l.stringData) ++
      [("intData", .int l.intData)] ++
      Value.unlessEmpty l.owner.isEmpty "owner" (.text l.owner) ++
      Value.unlessEmpty l.dependencies.isEmpty "dependencies" (Value.texts l.dependencies)

/-- The owner and the dependencies of a linked record, in its own namespace. -/
def references (r : Record Linked) : Except Fault References :=
  let reference (name : String) : Reference := { key := ⟨r.key.ns, name⟩ }
  if "" ∈ r.spec.dependencies then
    .error (.invalidInstance r.key "dependency names must not be empty")
  else
    .ok {
      owner := if r.spec.owner = "" then none else some (reference r.spec.owner)
      dependencies := r.spec.dependencies.map reference }

def definition : Definition Linked where
  kind := "B"
  finalizer := "b.finalizers.com"
  resourceId := id
  references := references

end Linked

end Steward
