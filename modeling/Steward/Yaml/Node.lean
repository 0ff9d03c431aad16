import Steward.Layout
import Steward.Reader

/-!
# YAML documents

The values of a YAML document.  A plain scalar is its text, whatever that looks like: which of them
are numbers is for the reader of a field to say, and a quoted scalar never is one.  Nothing at all is
an empty plain scalar, which also passes for an empty list or map.
-/

namespace Steward.Yaml

inductive Node where
  | plain (s : String)
  | quoted (s : String)
  | list (items : List Node)
  | map (entries : List (Node × Node))
  deriving Repr, Inhabited

namespace Node

def nothing : Node := .plain ""

def text? : Node → Option String
  | .plain s | .quoted s => some s
  | _ => none

/-! ## Whole numbers -/

/-- Digits in a base, one at least. -/
def magnitude? (base : Nat) (cs : List Char) : Option Nat :=
  if cs.isEmpty then none else digitsValue? base cs

/-- More than one decimal digit, the first of which is a zero. -/
def hasLeadingZero (cs : List Char) : Bool :=
  cs.length > 1 && cs.head? == some '0' && cs.all Char.isDigit

/-- A number without its sign. -/
def unsigned? : List Char → Option Nat
  | '0' :: 'x' :: ds => magnitude? 16 ds
  | '0' :: 'o' :: ds => magnitude? 8 ds
  | '0' :: 'b' :: ds => magnitude? 2 ds
  | ds => if hasLeadingZero ds then none else magnitude? 10 ds

/-- A number that may have a plus in front. -/
def natural? : List Char → Option Nat
  | '+' :: cs => unsigned? cs
  | cs => unsigned? cs

/-- A number that may have any sign in front. -/
def integer? : List Char → Option Int
  | '-' :: cs => (unsigned? cs).map fun n => -(n : Int)
  | cs => (natural? cs).map Int.ofNat

/-- A number by the rules of a reader; only a plain scalar is one. -/
def number? {α : Type} (read : List Char → Option α) : Node → Option α
  | .plain s => read s.toList
  | _ => none

/-! ## Collections -/

def list? : Node → Option (List Node)
  | .list items => some items
  | .plain "" => some []
  | _ => none

def entries? : Node → Option (List (String × Node))
  | .map entries => entries.mapM fun (key, value) => key.text?.map fun s => (s, value)
  | .plain "" => some []
  | _ => none

/-- The fields of a record, none of which may be given twice. -/
def fields? (names : List String) (node : Node) : Option (String → Option Node) := do
  let entries ← node.entries?
  let known := (entries.map Prod.fst).filter fun key => key ∈ names
  if known.Nodup then some fun name => entries.lookup name else none

instance : Source Node where
  text? := text?
  case? := text?
  int? node := node.number? integer? >>= int64?
  nat? node := node.number? natural? >>= fun n => nat64? n
  list? := list?
  entries? := entries?
  fields? := fields?

end Node

end Steward.Yaml
