import Steward.Record

/-!
# Access permissions

An annotation may restrict what is done to the external resource.  Its text permits exactly the
operations whose letters it contains, `C`, `U` and `D`; without the annotation everything is
permitted.
-/

namespace Steward

structure Permissions where
  create : Bool
  update : Bool
  delete : Bool
  deriving DecidableEq, Repr

namespace Permissions

def all : Permissions := ⟨true, true, true⟩

def none : Permissions := ⟨false, false, false⟩

def ofText (text : String) : Permissions :=
  ⟨text.toList.contains 'C', text.toList.contains 'U', text.toList.contains 'D'⟩

/-- What the text of the annotation grants; without the annotation, everything. -/
def granted : Option String → Permissions
  | .none => all
  | some text => ofText text

/-- What the annotation `name` permits. -/
def ofAnnotations (annotations : Annotations) (name : String) : Permissions :=
  granted annotations[name]?

def allows (p : Permissions) : Mutation → Bool
  | .create => p.create
  | .update => p.update
  | .delete => p.delete

/-- The letters of the permitted operations. -/
def text (p : Permissions) : String :=
  String.ofList <|
    (if p.create then ['C'] else []) ++ (if p.update then ['U'] else []) ++
    (if p.delete then ['D'] else [])

def deniedMessage (operation : Mutation) : String :=
  s!"permission to {operation.verb} external resource is not set"

/-- The base name under which the annotation is looked for unless another is set. -/
def defaultBase : String := "operatify.io"

def annotationName (base : String) : String := base ++ "/access-permissions"

end Permissions

end Steward
