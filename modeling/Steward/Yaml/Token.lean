import Steward.Yaml.Scalar

/-!
# Tokens

A YAML text as a list of tokens: scalars, brackets and commas, the marks of items, keys and values,
and the two ends of every collection that is written over lines, which follow from the columns.

A colon may turn what was read before it on its line into a key.  So the places where a key may have
begun are kept, one for each level of brackets.  Such a place is given up when its line ends or when
1024 bytes have passed.  Where only a key can stand, giving it up is an error.
-/

namespace Steward.Yaml

open Glyphs

inductive Token where
  | plain (s : String)
  | quoted (s : String)
  | openList
  | closeList
  | openMap
  | closeMap
  | comma
  /-- A list over several lines begins. -/
  | blockList
  /-- A map over several lines begins. -/
  | blockMap
  /-- A collection over several lines ends. -/
  | blockEnd
  | item
  | key
  | value
  | documentStart
  | documentEnd
  deriving DecidableEq, Repr

/-- A place where a key may have begun. -/
structure Candidate where
  /-- How many tokens come before it. -/
  index : Nat
  place : Place
  /-- Nothing but a key can stand here. -/
  required : Bool

namespace Candidate

/-- The most bytes from the beginning of a key to its colon. -/
def reach : Nat := 1024

/-- No colon at a place can belong to the key. -/
def isExpired (c : Candidate) (p : Place) : Bool :=
  c.place.line < p.line || c.place.offset + reach < p.offset

end Candidate

/-- A text of which some tokens were taken. -/
structure Scanner where
  rest : Glyphs
  /-- The tokens, the last one first. -/
  tokens : List Token := []
  /-- The columns of the open collections over several lines, the innermost first. -/
  columns : List Nat := []
  candidate : Option Candidate := none
  /-- The candidates outside of the innermost brackets, one for each pair of open brackets. -/
  outer : List (Option Candidate) := []
  keyAllowed : Bool := true

namespace Scanner

def inFlow (s : Scanner) : Bool := !s.outer.isEmpty

def push (t : Token) (s : Scanner) : Scanner := { s with tokens := t :: s.tokens }

/-- Gives up the candidate. -/
def dropCandidate? (s : Scanner) : Option Scanner :=
  if s.candidate.any Candidate.required then none else some { s with candidate := none }

/-- Gives up the candidates that are expired at a place. -/
def expire? (p : Place) (s : Scanner) : Option Scanner :=
  if (s.candidate :: s.outer).any fun o => o.any fun c => c.required && c.isExpired p then none
  else
    let keep (o : Option Candidate) : Option Candidate := o.filter fun c => !c.isExpired p
    some { s with candidate := keep s.candidate, outer := s.outer.map keep }

/-- Whatever is read now may turn out to be a key, if one is allowed here. -/
def mayBeKey? (p : Place) (s : Scanner) : Option Scanner :=
  if s.keyAllowed then
    let required := !s.inFlow && s.columns.head? == some p.column
    s.dropCandidate?.map fun s =>
      { s with candidate := some { index := s.tokens.length, place := p, required } }
  else some s

/-- Ends the collections whose column lies to the right of `column`. -/
def closeBlocks (column : Nat) (s : Scanner) : Scanner :=
  if s.inFlow then s
  else
    let closed := s.columns.takeWhile fun c => column < c
    { s with
      columns := s.columns.drop closed.length
      tokens := List.replicate closed.length .blockEnd ++ s.tokens }

/-- Ends all collections over several lines. -/
def closeAllBlocks (s : Scanner) : Scanner :=
  if s.inFlow then s
  else { s with columns := [], tokens := List.replicate s.columns.length .blockEnd ++ s.tokens }

/-- A column lies to the right of all open collections over several lines. -/
def isDeeper (s : Scanner) (column : Nat) : Bool :=
  !s.inFlow && s.columns.head?.all fun c => c < column

/-- Begins a collection in a column, unless the innermost one stands in it or further right. -/
def openBlock (t : Token) (column : Nat) (s : Scanner) : Scanner :=
  if s.isDeeper column then { s.push t with columns := column :: s.columns } else s

/-- A mark after which an item or a key follows; outside of brackets it stands where a key may. -/
def blockMark? (collection mark : Token) (p : Place) (s : Scanner) : Option Scanner :=
  if !s.inFlow && !s.keyAllowed then none
  else (s.openBlock collection p.column).dropCandidate?.map (push mark)

/-- The colon after a key. -/
def colon? (p : Place) (s : Scanner) : Option Scanner :=
  match s.candidate with
  | some c =>
      let later := s.tokens.length - c.index
      let opening := s.isDeeper c.place.column
      some {
        s with
        tokens :=
          .value :: s.tokens.take later ++ .key :: (if opening then [.blockMap] else []) ++
            s.tokens.drop later
        columns := if opening then c.place.column :: s.columns else s.columns
        candidate := none
        keyAllowed := false }
  | none =>
      if !s.inFlow && !s.keyAllowed then none
      else
        some { (s.openBlock .blockMap p.column).push .value with keyAllowed := !s.inFlow }

def openBracket? (t : Token) (p : Place) (s : Scanner) : Option Scanner :=
  (s.mayBeKey? p).map fun s =>
    { s.push t with candidate := none, outer := s.candidate :: s.outer, keyAllowed := true }

def closeBracket? (t : Token) (s : Scanner) : Option Scanner :=
  s.dropCandidate?.map fun s =>
    { s.push t with
      candidate := s.outer.head?.join
      outer := s.outer.tail
      keyAllowed := false }

def documentMark? (t : Token) (s : Scanner) : Option Scanner :=
  s.closeAllBlocks.dropCandidate?.map fun s => { s.push t with keyAllowed := false }

/-- Reads a scalar and goes on behind it. -/
def scalar? (p : Place) (read : Option (Token × Bool × Glyphs)) (s : Scanner) : Option Scanner := do
  let s ← s.mayBeKey? p
  let (t, keyAllowed, rest) ← read
  return { s.push t with rest, keyAllowed }

def plainToken? (s : Scanner) (gs : Glyphs) : Option (Token × Bool × Glyphs) :=
  let least := (s.columns.head?.map (· + 1)).getD 0
  (plain? s.inFlow least gs).map fun (cs, broken, rest) => (.plain (String.ofList cs), broken, rest)

def quotedToken : List Char × Glyphs → Token × Bool × Glyphs
  | (cs, rest) => (.quoted (String.ofList cs), false, rest)

/-- Takes the token that starts with `g`. -/
def token? (g : Glyph) (next : Glyphs) (s : Scanner) : Option Scanner :=
  let behind : Scanner := { s with rest := next }
  let marks (c : Char) : Bool := g.char == c && (s.inFlow || atWhite next)
  if atDocumentMark (g :: next) then
    documentMark? (if g.char = '-' then .documentStart else .documentEnd)
      { s with rest := next.drop 2 }
  else if g.char = '[' then behind.openBracket? .openList g.place
  else if g.char = '{' then behind.openBracket? .openMap g.place
  else if g.char = ']' then behind.closeBracket? .closeList
  else if g.char = '}' then behind.closeBracket? .closeMap
  else if g.char = ',' then
    behind.dropCandidate?.map fun s => { s.push .comma with keyAllowed := true }
  else if g.char = '-' ∧ atWhite next then
    (behind.blockMark? .blockList .item g.place).map fun s => { s with keyAllowed := true }
  else if marks '?' then
    (behind.blockMark? .blockMap .key g.place).map fun s => { s with keyAllowed := !s.inFlow }
  else if marks ':' then behind.colon? g.place
  else if g.char = '\'' then s.scalar? g.place ((single? .empty next).map quotedToken)
  else if g.char = '"' then s.scalar? g.place ((double? .empty next).map quotedToken)
  else if startsPlain s.inFlow (g :: next) then s.scalar? g.place (s.plainToken? (g :: next))
  else none

/-- Takes all tokens that are left. -/
def tokens? (s : Scanner) : Option (List Token) :=
  match gap s.inFlow s.keyAllowed s.rest with
  | (_, []) => s.dropCandidate?.map fun s => s.closeAllBlocks.tokens.reverse
  | (keyAllowed, g :: next) =>
      match ({ s with keyAllowed }.expire? g.place).bind fun s =>
          (s.closeBlocks g.place.column).token? g next with
      | none => none
      | some s' =>
          if _shorter : s'.rest.length < s.rest.length then s'.tokens? else none
termination_by s.rest.length

end Scanner

/-- The tokens of a text. -/
def tokens? (s : String) : Option (List Token) :=
  (glyphs? s).bind fun gs => { rest := gs : Scanner }.tokens?

end Steward.Yaml
