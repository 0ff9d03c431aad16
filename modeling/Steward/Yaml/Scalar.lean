import Steward.Reader
import Steward.Yaml.Glyph

/-!
# Scalars

Reading the scalars of a YAML text.  Any scalar may go on for several lines; then a single line break
stands for a blank, and of several breaks in a row the first is dropped.
-/

namespace Steward.Yaml

open Glyphs

/-- The white space between two parts of a scalar. -/
inductive Fold where
  | blanks (cs : List Char)
  /-- A line break, and further ones after it; an escaped line break is none. -/
  | lines (first : Option Char) (more : List Char)

namespace Fold

def empty : Fold := .blanks []

def add : Fold → Char → Fold
  | blanks cs, c => if isBreak c then lines c [] else blanks (cs ++ [c])
  | lines first more, c => if isBreak c then lines first (more ++ [c]) else lines first more

/-- What the white space stands for. -/
def chars : Fold → List Char
  | blanks cs => cs
  | lines first more =>
      if first = some '\n' then (if more.isEmpty then [' '] else more) else first.toList ++ more

/-- There is a line break in it. -/
def isBroken : Fold → Bool
  | blanks _ => false
  | lines _ _ => true

end Fold

/-! ## Quoted scalars -/

/-- The rest of a single-quoted scalar. -/
def single? (fold : Fold) : Glyphs → Option (List Char × Glyphs)
  | [] => none
  | g :: rest =>
      if atDocumentMark (g :: rest) then none
      else if isWhite g.char then single? (fold.add g.char) rest
      else if g.char = '\'' then
        match rest with
        | ⟨'\'', _⟩ :: rest =>
            (single? .empty rest).map fun (cs, rest) => (fold.chars ++ '\'' :: cs, rest)
        | _ => some (fold.chars, rest)
      else (single? .empty rest).map fun (cs, rest) => (fold.chars ++ g.char :: cs, rest)

def codePoint? (width : Nat) (gs : Glyphs) : Option (Char × Glyphs) := do
  let digits := (gs.take width).map Glyph.char
  if digits.length < width then none
  let c ← digitsValue? 16 digits >>= char?
  return (c, gs.drop width)

/-- What follows the backslash of an escape. -/
def escape? : Glyphs → Option (Char × Glyphs)
  | [] => none
  | g :: rest =>
      match g.char with
      | '0' => some ('\x00', rest)
      | 'a' => some ('\x07', rest)
      | 'b' => some ('\x08', rest)
      | 't' | '\t' => some ('\t', rest)
      | 'n' => some ('\n', rest)
      | 'v' => some ('\x0b', rest)
      | 'f' => some ('\x0c', rest)
      | 'r' => some ('\r', rest)
      | 'e' => some ('\x1b', rest)
      | ' ' => some (' ', rest)
      | '"' => some ('"', rest)
      | '/' => some ('/', rest)
      | '\\' => some ('\\', rest)
      | 'N' => some ('\u0085', rest)
      | '_' => some ('\u00a0', rest)
      | 'L' => some ('\u2028', rest)
      | 'P' => some ('\u2029', rest)
      | 'x' => codePoint? 2 rest
      | 'u' => codePoint? 4 rest
      | 'U' => codePoint? 8 rest
      | _ => none

/-- The rest of a double-quoted scalar. -/
def double? (fold : Fold) (gs : Glyphs) : Option (List Char × Glyphs) :=
  match gs with
  | [] => none
  | g :: rest =>
      if atDocumentMark (g :: rest) then none
      else if isWhite g.char then double? (fold.add g.char) rest
      else if g.char = '"' then some (fold.chars, rest)
      else if g.char = '\\' then
        if (next? rest).any isBreak then
          (double? (.lines none []) (rest.drop 1)).map fun (cs, rest) => (fold.chars ++ cs, rest)
        else
          match escape? rest with
          | none => none
          | some (c, next) =>
              if _shorter : next.length ≤ rest.length then
                (double? .empty next).map fun (cs, rest) => (fold.chars ++ c :: cs, rest)
              else none
      else (double? .empty rest).map fun (cs, rest) => (fold.chars ++ g.char :: cs, rest)
termination_by gs.length

/-! ## Plain scalars -/

def isBracket (c : Char) : Bool := c == '[' || c == ']' || c == '{' || c == '}'

/-- The characters that are no part of a plain scalar inside brackets. -/
def isFlowMark (c : Char) : Bool := c == ',' || isBracket c

/-- A plain scalar may start here. -/
def startsPlain (inFlow : Bool) : Glyphs → Bool
  | [] => false
  | g :: rest =>
      if isWhite g.char then false
      else if g.char = '-' then !atWhite rest
      else if g.char = '?' ∨ g.char = ':' then !inFlow && !atWhite rest
      else !isFlowMark g.char && !"#&*!|>'\"%@`".toList.contains g.char

/-- A part of a plain scalar without white space.  Inside brackets no mark may follow on a colon. -/
def plainPart? (inFlow : Bool) : Glyphs → Option (List Char × Glyphs)
  | [] => some ([], [])
  | g :: rest =>
      if isWhite g.char ∨ (g.char = ':' ∧ atWhite rest) ∨ (inFlow ∧ isFlowMark g.char) then
        some ([], g :: rest)
      else if inFlow ∧ g.char = ':' ∧ ((next? rest).any fun c => c == '?' || isFlowMark c) then none
      else (plainPart? inFlow rest).map fun (cs, rest) => (g.char :: cs, rest)

/-- The white space that comes next, and what is left after it.  On a new line no tab may stand in a
column before `least`. -/
def white? (least : Nat) (fold : Fold) : Glyphs → Option (Fold × Glyphs)
  | [] => some (fold, [])
  | g :: rest =>
      if g.char = '\t' ∧ fold.isBroken ∧ g.place.column < least then none
      else if isWhite g.char then white? least (fold.add g.char) rest
      else some (fold, g :: rest)

/-- A plain scalar, whether a line break was passed behind it, and what is left.  Outside of brackets
its lines start in column `least` or further right. -/
def plain? (inFlow : Bool) (least : Nat) (gs : Glyphs) : Option (List Char × Bool × Glyphs) :=
  match plainPart? inFlow gs with
  | none => none
  | some (part, rest) =>
      match white? least .empty rest with
      | none => none
      | some (fold, next) =>
          let isOver := next.head?.all fun g =>
            g.char == '#' || atDocumentMark next || (!inFlow && decide (g.place.column < least))
          if isOver || rest.length == next.length then some (part, fold.isBroken, next)
          else
            match plainPart? inFlow next with
            | none => none
            | some ([], _) => some (part, fold.isBroken, next)
            | some (_ :: _, _) =>
                if _shorter : next.length < gs.length then
                  (plain? inFlow least next).map fun (cs, broken, rest) =>
                    (part ++ fold.chars ++ cs, broken, rest)
                else none
termination_by gs.length

end Steward.Yaml
