import Steward.Loop.Settings
import Steward.Permissions
import Steward.Toml.Document

/-!
# Settings

The settings of the operator: the base name of the permission annotation, the intervals of the
engine, the loops, and how long the simulated backend takes to finish what it accepted.  They are
written as a TOML document with one section each for the last three, and read from such a document
or from a structured value; everything may be left out.
-/

namespace Steward

structure Settings where
  annotationBase : String := Permissions.defaultBase
  intervals : Intervals := {}
  loop : LoopSettings := {}
  completionDelay : Nat := 450
  deriving DecidableEq, Repr

/-- Why settings are refused. -/
inductive SettingsError where
  | malformed
  | interval (fault : Fault)
  | emptyBase
  | noWorkers
  deriving DecidableEq, Repr

namespace SettingsError

def message : SettingsError → String
  | malformed => "Failed to parse operator config"
  | interval fault => fault.message
  | emptyBase => "annotation_base must not be empty"
  | noWorkers => "loop.workers must be positive"

end SettingsError

namespace Settings

def fieldNames : List String := ["annotation_base", "reconcile", "loop", "backend"]

def readDelay? {δ : Type} [Source δ] (d : δ) : Option Nat := do
  let field ← Source.fields? ["completion_delay"] d
  Source.orElse ({} : Settings).completionDelay Source.nat? (field "completion_delay")

def read? {δ : Type} [Source δ] (d : δ) : Option Settings := do
  let field ← Source.fields? fieldNames d
  let default : Settings := {}
  let annotationBase ← Source.orElse default.annotationBase Source.text? (field "annotation_base")
  let intervals ← Source.orElse default.intervals Intervals.read? (field "reconcile")
  let loop ← Source.orElse default.loop LoopSettings.read? (field "loop")
  let completionDelay ← Source.orElse default.completionDelay readDelay? (field "backend")
  return { annotationBase, intervals, loop, completionDelay }

def validate (s : Settings) : Except SettingsError Settings :=
  match s.intervals.validate with
  | .error fault => .error (.interval fault)
  | .ok _ =>
      if s.annotationBase = "" then .error .emptyBase
      else if s.loop.workers = 0 then .error .noWorkers
      else .ok s

/-- Reads settings from a TOML document and validates them. -/
def ofToml (text : String) : Except SettingsError Settings :=
  match Toml.ofText? text >>= read? with
  | none => .error .malformed
  | some s => s.validate

/-! ## Writing -/

/-- The sections in order, each with its fields. -/
def sections (s : Settings) : List (String × List (String × Nat)) :=
  [("reconcile", s.intervals.written), ("loop", s.loop.written),
    ("backend", [("completion_delay", Counter.capped s.completionDelay)])]

def numberLine (field : String × Nat) : List Char :=
  field.1.toList ++ " = ".toList ++ Nat.toDigits 10 field.2 ++ ['\n']

def sectionText (part : String × List (String × Nat)) : List Char :=
  '\n' :: '[' :: part.1.toList ++ ']' :: '\n' :: part.2.flatMap numberLine

def chars (s : Settings) : List Char :=
  "annotation_base = ".toList ++ Toml.written s.annotationBase ++
    '\n' :: s.sections.flatMap sectionText

/-- The settings as a TOML document. -/
def text (s : Settings) : String := String.ofList s.chars

end Settings

end Steward
