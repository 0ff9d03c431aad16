import Steward.Counter
import Steward.Value

/-!
# Layouts of records

How the fields of a record are found in a document.  A document format says which of its values are
texts, whole numbers, lists and maps (`Source`); the reader of a record asks for its fields by name
and knows what to do when one is missing.  A record is written as a map, and a format that knows no
names may also give its fields by place, in the order in which the reader lists them.
-/

namespace Steward

/-- What a document format offers to the reader of a record. -/
class Source (δ : Type) where
  text? : δ → Option String
  /-- The name of a case of an enumeration. -/
  case? : δ → Option String
  /-- A signed whole number of 64 bits. -/
  int? : δ → Option Int
  /-- An unsigned whole number of 64 bits. -/
  nat? : δ → Option Nat
  list? : δ → Option (List δ)
  entries? : δ → Option (List (String × δ))
  /-- The fields of a record whose field names are given. -/
  fields? : List String → δ → Option (String → Option δ)

def int64? (n : Int) : Option Int :=
  if -9223372036854775808 ≤ n ∧ n ≤ 9223372036854775807 then some n else none

def nat64? (n : Int) : Option Nat :=
  if 0 ≤ n ∧ n ≤ Counter.ceiling then some n.toNat else none

namespace Source

variable {δ : Type} [Source δ] {α : Type}

/-- The content of a field that may be left out. -/
def orElse (default : α) (read : δ → Option α) : Option δ → Option α
  | none => some default
  | some d => read d

def listOf? (read : δ → Option α) (d : δ) : Option (List α) :=
  list? d >>= List.mapM read

end Source

namespace Value

def isNull : Value → Bool
  | .null => true
  | _ => false

def text? : Value → Option String
  | .text s => some s
  | _ => none

/-- A case without content is written as its name, or as a map from its name to null. -/
def case? : Value → Option String
  | .text s => some s
  | .map [(s, .null)] => some s
  | _ => none

def list? : Value → Option (List Value)
  | .list items => some items
  | _ => none

def entries? : Value → Option (List (String × Value))
  | .map entries => some entries
  | _ => none

def fields? (names : List String) : Value → Option (String → Option Value)
  | .map entries => some fun name => entries.lookup name
  | .list items =>
      if items.length ≤ names.length then some fun name => (names.zip items).lookup name
      else none
  | _ => none

instance : Source Value where
  text? := text?
  case? := case?
  int?
    | .int n => int64? n
    | _ => none
  nat?
    | .int n => nat64? n
    | _ => none
  list? := list?
  entries? := entries?
  fields? := fields?

end Value

/-- An enumeration whose cases are written by name. -/
class Named (ε : Type) where
  all : List ε
  name : ε → String

namespace Named

variable {ε : Type} [Named ε]

def ofName? (s : String) : Option ε := (all : List ε).find? fun e => name e == s

def read? {δ : Type} [Source δ] (d : δ) : Option ε := Source.case? d >>= ofName?

end Named

end Steward
