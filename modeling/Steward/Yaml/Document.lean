import Steward.Yaml.Node
import Steward.Yaml.Token

/-!
# Reading YAML

A text holds one document.  Collections are written with brackets, or one entry on a line, where the
column of an entry says what it belongs to.  Anchors, tags, directives and block scalars are not
read.

Every function here takes a value off the front of the tokens.  A value that is left out is nothing,
and what may follow a value that was left out depends on where it should stand.
-/

namespace Steward.Yaml

/-- One of some tokens comes next. -/
def stopsAt (stops : List Token) (ts : List Token) : Bool := ts.head?.any fun t => t ∈ stops

mutual

/-- A value.  Only a `block` may be a collection over several lines; a list whose items stand in the
column of the keys around it is accepted `beside` them. -/
def node? : (fuel : Nat) → (block beside : Bool) → List Token → Option (Node × List Token)
  | 0, _, _, _ => none
  | fuel + 1, block, beside, ts =>
      match ts with
      | .plain s :: rest => some (.plain s, rest)
      | .quoted s :: rest => some (.quoted s, rest)
      | .openList :: rest =>
          (flowItems? fuel true rest).map fun (items, rest) => (.list items, rest)
      | .openMap :: rest =>
          (flowEntries? fuel true rest).map fun (entries, rest) => (.map entries, rest)
      | .blockList :: rest =>
          if block then (blockItems? fuel rest).map fun (items, rest) => (.list items, rest)
          else none
      | .blockMap :: rest =>
          if block then (blockEntries? fuel rest).map fun (entries, rest) => (.map entries, rest)
          else none
      | .item :: _ =>
          if beside then (itemsBeside? fuel ts).map fun (items, rest) => (.list items, rest)
          else none
      | _ => none

/-- A value, or nothing before one of the `stops`. -/
def nodeOr? : (fuel : Nat) → (stops : List Token) → (block beside : Bool) → List Token →
    Option (Node × List Token)
  | 0, _, _, _, _ => none
  | fuel + 1, stops, block, beside, ts =>
      if stopsAt stops ts then some (.nothing, ts) else node? fuel block beside ts

/-- The value after a key, if there is one. -/
def valueOr? : (fuel : Nat) → (stops : List Token) → (block : Bool) → List Token →
    Option (Node × List Token)
  | 0, _, _, _ => none
  | fuel + 1, stops, block, ts =>
      match ts with
      | .value :: rest => nodeOr? fuel stops block block rest
      | _ => some (.nothing, ts)

/-- The rest of a list in brackets; all items but the `first` come after a comma. -/
def flowItems? : (fuel : Nat) → (first : Bool) → List Token → Option (List Node × List Token)
  | 0, _, _ => none
  | _ + 1, _, .closeList :: rest => some ([], rest)
  | fuel + 1, false, .comma :: rest => flowItems? fuel true rest
  | fuel + 1, true, .key :: rest => do
      let (key, rest) ←
        if stopsAt [.value, .comma, .closeList] rest then some (.nothing, rest.tail)
        else node? fuel false false rest
      let (value, rest) ← valueOr? fuel [.comma, .closeList] false rest
      let (items, rest) ← flowItems? fuel false rest
      return (.map [(key, value)] :: items, rest)
  | fuel + 1, true, ts => do
      let (item, rest) ← node? fuel false false ts
      let (items, rest) ← flowItems? fuel false rest
      return (item :: items, rest)
  | _ + 1, false, _ => none

/-- The rest of a map in braces; all entries but the `first` come after a comma. -/
def flowEntries? : (fuel : Nat) → (first : Bool) → List Token →
    Option (List (Node × Node) × List Token)
  | 0, _, _ => none
  | _ + 1, _, .closeMap :: rest => some ([], rest)
  | fuel + 1, false, .comma :: rest => flowEntries? fuel true rest
  | fuel + 1, true, .key :: rest => do
      let (key, rest) ← nodeOr? fuel [.value, .comma, .closeMap] false false rest
      let (value, rest) ← valueOr? fuel [.comma, .closeMap] false rest
      let (entries, rest) ← flowEntries? fuel false rest
      return ((key, value) :: entries, rest)
  | fuel + 1, true, ts => do
      let (key, rest) ← node? fuel false false ts
      let (entries, rest) ← flowEntries? fuel false rest
      return ((key, .nothing) :: entries, rest)
  | _ + 1, false, _ => none

/-- The rest of a list over several lines. -/
def blockItems? : (fuel : Nat) → List Token → Option (List Node × List Token)
  | 0, _ => none
  | fuel + 1, .item :: rest => do
      let (item, rest) ← nodeOr? fuel [.item, .blockEnd] true false rest
      let (items, rest) ← blockItems? fuel rest
      return (item :: items, rest)
  | _ + 1, .blockEnd :: rest => some ([], rest)
  | _ + 1, _ => none

/-- The items of a list beside the keys around it, which has no end of its own. -/
def itemsBeside? : (fuel : Nat) → List Token → Option (List Node × List Token)
  | 0, _ => none
  | fuel + 1, .item :: rest => do
      let (item, rest) ← nodeOr? fuel [.item, .key, .value, .blockEnd] true false rest
      let (items, rest) ← itemsBeside? fuel rest
      return (item :: items, rest)
  | _ + 1, ts => some ([], ts)

/-- The rest of a map over several lines. -/
def blockEntries? : (fuel : Nat) → List Token → Option (List (Node × Node) × List Token)
  | 0, _ => none
  | fuel + 1, .key :: rest => do
      let stops : List Token := [.key, .value, .blockEnd]
      let (key, rest) ← nodeOr? fuel stops true true rest
      let (value, rest) ← valueOr? fuel stops true rest
      let (entries, rest) ← blockEntries? fuel rest
      return ((key, value) :: entries, rest)
  | _ + 1, .blockEnd :: rest => some ([], rest)
  | _ + 1, _ => none

end

/-- Reads the tokens of one document; no tokens stand for nothing. -/
def document? (ts : List Token) : Option Node := do
  let fuel := 4 * ts.length + 4
  let (node, rest) ← match ts with
    | [] => some (.nothing, [])
    | .documentStart :: rest =>
        if rest.isEmpty then some (.nothing, [])
        else nodeOr? fuel [.documentStart, .documentEnd] true false rest
    | ts => node? fuel true false ts
  if rest.all (· == .documentEnd) then some node else none

/-- Reads a text that holds one document. -/
def ofText? (s : String) : Option Node := tokens? s >>= document?

end Steward.Yaml
