import Steward.Toml.Scalar
import Steward.Toml.Text

/-!
# Reading TOML

A document is a list of statements: a header opens a table, or one more table of a list of tables,
and an assignment gives a value to a key in the table that is open.  Keys may be paths.  A table is
opened at most once and a key is given a value at most once.  Tables that only came into being
because the path of a header leads through them may still be opened, and those that came into being
by an assignment may get further values.
-/

namespace Steward.Toml

/-! ## Blanks, comments and keys -/

def dropBlanks (cs : List Char) : List Char := cs.dropWhile isBlank

/-- Drops a comment, if there is one; what a comment may not hold is left. -/
def dropComment : List Char → List Char
  | '#' :: rest => rest.dropWhile isInline
  | cs => cs

/-- Drops blanks, comments and line breaks. -/
def dropSpace (cs : List Char) : List Char :=
  let rest := dropComment (dropBlanks cs)
  match lineBreak? rest with
  | none => rest
  | some (_, next) => if _shorter : next.length < cs.length then dropSpace next else next
termination_by cs.length

/-- Nothing but blanks and a comment is left on the line. -/
def endOfLine? (cs : List Char) : Option (List Char) :=
  match dropComment (dropBlanks cs) with
  | [] => some []
  | rest => (lineBreak? rest).map Prod.snd

def isBare (c : Char) : Bool := c.isAlphanum || c == '_' || c == '-'

def key? : Reader String := fun cs =>
  match lineText? cs with
  | some (ds, rest) => some (String.ofList ds, rest)
  | none =>
      let bare := cs.takeWhile isBare
      if bare.isEmpty then none else some (String.ofList bare, cs.dropWhile isBare)

/-- Keys with points between them. -/
def keys? (cs : List Char) : Option (List String × List Char) :=
  match key? (dropBlanks cs) with
  | none => none
  | some (key, rest) =>
      match dropBlanks rest with
      | '.' :: next =>
          if _shorter : next.length < cs.length then
            (keys? next).map fun (keys, rest) => (key :: keys, rest)
          else none
      | rest => some ([key], rest)
termination_by cs.length

/-- How deep paths lead, and lists and tables nest, at most. -/
def depthLimit : Nat := 80

def path? : Reader (List String) := fun cs => do
  let (keys, rest) ← keys? cs
  if keys.length ≤ depthLimit then some (keys, rest) else none

/-! ## Tables under construction -/

/-- How a table came into being. -/
inductive Origin where
  /-- A longer path leads through it. -/
  | implied
  /-- A header opened it. -/
  | header
  /-- An assignment to a path leads through it. -/
  | dotted
  deriving DecidableEq, Repr

inductive Tree where
  /-- A value that nothing can be added to. -/
  | leaf (node : Node)
  | table (origin : Origin) (entries : List (String × Tree))
  /-- A list of tables, of which the last is open. -/
  | tables (done : List (List (String × Tree))) (last : List (String × Tree))

abbrev Entries : Type := List (String × Tree)

namespace Entries

/-- Changes what stands under a key, or adds it. -/
def alter (key : String) (change : Option Tree → Option Tree) : Entries → Option Entries
  | [] => (change none).map fun t => [(key, t)]
  | (k, t) :: rest =>
      if k = key then (change (some t)).map fun t => (k, t) :: rest
      else (alter key change rest).map ((k, t) :: ·)

/-- Does something in the table at the end of a path of tables that exist. -/
def within (act : Entries → Option Entries) : List String → Entries → Option Entries
  | [], entries => act entries
  | key :: path, entries =>
      entries.alter key fun
        | some (.table origin inner) => (within act path inner).map (.table origin)
        | some (.tables done last) => (within act path last).map (.tables done)
        | _ => none

/-- Opens the table at the end of a path, or adds one to the list of tables there. -/
def openAt (asItem : Bool) : List String → Entries → Option Entries
  | [], _ => none
  | [key], entries =>
      entries.alter key fun
        | none => some (if asItem then .tables [] [] else .table .header [])
        | some (.table .implied inner) => if asItem then none else some (.table .header inner)
        | some (.tables done last) => if asItem then some (.tables (done ++ [last]) []) else none
        | _ => none
  | key :: path, entries =>
      entries.alter key fun
        | none => (openAt asItem path []).map (.table .implied)
        | some (.table origin inner) => (openAt asItem path inner).map (.table origin)
        | some (.tables done last) => (openAt asItem path last).map (.tables done)
        | some (.leaf _) => none

/-- Gives a value to a path.  The tables on the way were not opened by a header, save as items of a
list of tables, and the table that gets the value came into being by an assignment. -/
def assign (node : Node) : List String → Entries → Option Entries
  | [], _ => none
  | [key], entries =>
      entries.alter key fun
        | none => some (.leaf node)
        | some _ => none
  | key :: next :: path, entries =>
      let deeper := !path.isEmpty
      entries.alter key fun
        | none => (assign node (next :: path) []).map (.table .dotted)
        | some (.table .dotted inner) => (assign node (next :: path) inner).map (.table .dotted)
        | some (.table .implied inner) =>
            if deeper then (assign node (next :: path) inner).map (.table .implied) else none
        | some (.tables done last) =>
            if deeper then (assign node (next :: path) last).map (.tables done) else none
        | _ => none

end Entries

mutual

def Tree.toNode : Tree → Node
  | .leaf node => node
  | .table _ entries => .table (toEntries entries)
  | .tables done last => .list (toTables done ++ [.table (toEntries last)])

def toEntries : List (String × Tree) → List (String × Node)
  | [] => []
  | (key, tree) :: rest => (key, tree.toNode) :: toEntries rest

def toTables : List (List (String × Tree)) → List Node
  | [] => []
  | entries :: rest => .table (toEntries entries) :: toTables rest

end

/-! ## Values -/

/-- The table that a list of assignments makes. -/
def ofAssignments? (assignments : List (List String × Node)) : Option Node := do
  let entries ← assignments.foldlM (fun entries (path, node) => Entries.assign node path entries) []
  return .table (toEntries entries)

/-- A path, an equals sign and a value; `skip` drops what may stand around the sign. -/
def assignment? (skip : List Char → List Char) (value : Reader Node) :
    Reader (List String × Node) := fun cs => do
  let (path, cs) ← path? cs
  let (_, cs) ← mark? '=' (skip cs)
  let (node, cs) ← value (skip cs)
  return ((path, node), cs)

/-- A value; lists and tables inside it nest at most `depth` deep. -/
def value? : (depth : Nat) → Reader Node
  | depth, cs =>
      match text? cs with
      | some (ds, rest) => some (.text (String.ofList ds), rest)
      | none =>
          match depth, cs with
          | depth + 1, '[' :: rest =>
              (Reader.enclosed dropSpace ']' (value? depth) rest).map
                fun (items, rest) => (.list items, rest)
          | depth + 1, '{' :: rest => do
              let (assignments, rest) ←
                Reader.enclosed dropSpace '}' (assignment? dropSpace (value? depth)) rest
              let node ← ofAssignments? assignments
              return (node, rest)
          | _, cs => plain? cs

/-! ## Documents -/

inductive Statement where
  | assign (path : List String) (node : Node)
  | header (path : List String) (asItem : Bool)

def statement? (cs : List Char) : Option (Statement × List Char) := do
  let (statement, rest) ← match cs with
    | '[' :: '[' :: cs => do
        let (path, cs) ← path? cs
        let (_, cs) ← Reader.exactly [']', ']'] (dropBlanks cs)
        some (.header path true, cs)
    | '[' :: cs => do
        let (path, cs) ← path? cs
        let (_, cs) ← mark? ']' (dropBlanks cs)
        some (.header path false, cs)
    | cs => do
        let ((path, node), cs) ← assignment? dropBlanks (value? depthLimit) cs
        some (.assign path node, cs)
  let rest ← endOfLine? rest
  return (statement, rest)

def statements? (cs : List Char) : Option (List Statement) :=
  match dropSpace cs with
  | [] => some []
  | c :: rest =>
      match statement? (c :: rest) with
      | none => none
      | some (statement, next) =>
          if _shorter : next.length < cs.length then
            (statements? next).map (statement :: ·)
          else none
termination_by cs.length

/-- Carries out the statements one after the other; `here` is the path of the open table. -/
def build? (here : List String) (entries : Entries) : List Statement → Option Entries
  | [] => some entries
  | .assign path node :: rest => do
      let entries ← entries.within (Entries.assign node path) here
      build? here entries rest
  | .header path asItem :: rest => do
      let entries ← entries.openAt asItem path
      build? path entries rest

def dropByteOrderMark : List Char → List Char
  | '\ufeff' :: cs => cs
  | cs => cs

/-- Reads a document. -/
def ofText? (s : String) : Option Node := do
  let statements ← statements? (dropByteOrderMark s.toList)
  let entries ← build? [] [] statements
  return .table (toEntries entries)

end Steward.Toml
