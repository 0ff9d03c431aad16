import Steward.Intervals
import Steward.Permissions
import Steward.Reference

/-!
# Controllers

What the engine has to know about one kind of records (`Definition`), and the settings under which
it looks after them (`Controller`).
-/

namespace Steward

structure Definition (σ : Type) where
  /-- The name of the kind, for events. -/
  kind : String
  /-- The finalizer that guards records of the kind. -/
  finalizer : String
  /-- The name of the external resource; it is not the key of the record. -/
  resourceId : σ → String
  /-- The owner and the dependencies of a record. -/
  references : Record σ → Except Fault References := fun _ => .ok {}

structure Controller (σ : Type) where
  definition : Definition σ
  intervals : Intervals
  /-- The name of the annotation that restricts access. -/
  permissionKey : String

namespace Controller

variable {σ : Type}

def build (definition : Definition σ) (intervals : Intervals) (annotationBase : String) :
    Except Fault (Controller σ) := do
  let intervals ← intervals.validate
  if definition.finalizer = "" then
    throw (.invalidConfig "finalizer name must not be empty")
  return { definition, intervals,
           permissionKey := Permissions.annotationName annotationBase }

end Controller

/-- The parts of a controller, any of which may not have been supplied yet. -/
structure ControllerParts (σ : Type) where
  hasStore : Bool := false
  hasManager : Bool := false
  definition : Option (Definition σ) := none
  intervals : Intervals := {}
  annotationBase : String := Permissions.defaultBase

namespace ControllerParts

variable {σ : Type}

/-- Puts a controller together; the fault names the first part that is missing or invalid. -/
def assemble (parts : ControllerParts σ) : Except Fault (Controller σ) := do
  unless parts.hasStore do throw (.invalidConfig "instance store is required")
  unless parts.hasManager do throw (.invalidConfig "resource manager is required")
  let some definition := parts.definition
    | throw (.invalidConfig "resource definition is required")
  Controller.build definition parts.intervals parts.annotationBase

end ControllerParts

end Steward
