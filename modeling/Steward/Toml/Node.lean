import Steward.Layout

/-!
# TOML documents

The values of a TOML document.  A document is a table.  Fractions, and dates and times, stand for
themselves: nothing here computes with them.
-/

namespace Steward.Toml

inductive Node where
  | text (s : String)
  | int (n : Int)
  | float (written : String)
  | bool (flag : Bool)
  | moment (written : String)
  | list (items : List Node)
  | table (entries : List (String × Node))
  deriving Repr, Inhabited

namespace Node

def text? : Node → Option String
  | .text s => some s
  | _ => none

/-- The fields of a record.  A list gives them by place, and items beyond the last field do not
count; a date or a time is a record that has none of the fields. -/
def fields? (names : List String) : Node → Option (String → Option Node)
  | .table entries => some fun name => entries.lookup name
  | .list items => some fun name => (names.zip items).lookup name
  | .moment _ => some fun _ => none
  | _ => none

instance : Source Node where
  text? := text?
  case?
    | .text s => some s
    | .table [(s, .table [])] => some s
    | _ => none
  int?
    | .int n => int64? n
    | _ => none
  nat?
    | .int n => nat64? n
    | _ => none
  list?
    | .list items => some items
    | _ => none
  entries?
    | .table entries => some entries
    | _ => none
  fields? := fields?

end Node

end Steward.Toml
