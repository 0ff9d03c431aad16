/-!
# Glyphs

The characters of a YAML text together with the places in which they stand.  All line breaks count
as line feeds, except for the separators of lines and of paragraphs, which are breaks of their own
kind.
-/

namespace Steward.Yaml

/-- A place in a text: how many bytes are before it, its line, and its column. -/
structure Place where
  offset : Nat := 0
  line : Nat := 0
  column : Nat := 0
  deriving DecidableEq, Repr

structure Glyph where
  char : Char
  place : Place
  deriving DecidableEq, Repr

abbrev Glyphs : Type := List Glyph

namespace Place

/-- The place behind a character. -/
def after (p : Place) (c : Char) : Place :=
  { p with offset := p.offset + c.utf8Size, column := p.column + 1 }

/-- The place behind a line break of some bytes. -/
def nextLine (p : Place) (bytes : Nat) : Place :=
  { offset := p.offset + bytes, line := p.line + 1, column := 0 }

end Place

/-- A line break that is folded. -/
def isFeed (c : Char) : Bool := c == '\n' || c == '\r' || c == '\u0085'

/-- A line break that is kept as it is. -/
def isSeparator (c : Char) : Bool := c == '\u2028' || c == '\u2029'

def isBreak (c : Char) : Bool := isFeed c || isSeparator c

/-- The glyphs of a text that starts at a place. -/
def glyphsFrom (p : Place) : List Char → Glyphs
  | [] => []
  | '\r' :: '\n' :: cs => ⟨'\n', p⟩ :: glyphsFrom (p.nextLine 2) cs
  | c :: cs =>
      if isFeed c then ⟨'\n', p⟩ :: glyphsFrom (p.nextLine c.utf8Size) cs
      else if isSeparator c then ⟨c, p⟩ :: glyphsFrom (p.nextLine c.utf8Size) cs
      else ⟨c, p⟩ :: glyphsFrom (p.after c) cs

/-- The characters that a text may hold. -/
def isPrintable (c : Char) : Bool :=
  let n := c.toNat
  n == 0x09 || n == 0x0a || n == 0x0d || (0x20 ≤ n && n ≤ 0x7e) || n == 0x85 ||
  (0xa0 ≤ n && n ≤ 0xfffd) || 0x10000 ≤ n

def glyphs? (s : String) : Option Glyphs :=
  if s.toList.all isPrintable then some (glyphsFrom {} s.toList) else none

def isBlank (c : Char) : Bool := c == ' ' || c == '\t'

def isWhite (c : Char) : Bool := isBlank c || isBreak c

namespace Glyphs

/-- White space or the end comes next. -/
def atWhite (gs : Glyphs) : Bool := gs.head?.all fun g => isWhite g.char

def next? (gs : Glyphs) : Option Char := gs.head?.map Glyph.char

/-- A line of three hyphens or three points stands between documents. -/
def atDocumentMark (gs : Glyphs) : Bool :=
  match gs with
  | a :: b :: c :: rest =>
      a.place.column == 0 && (a.char == '-' || a.char == '.') && b.char == a.char &&
        c.char == a.char && atWhite rest
  | _ => false

/-- Drops blanks, comments and line breaks, and a byte order mark at the start of a line; says
whether a key may begin where the text goes on.  Outside of brackets a key may begin on every new
line, and where one may begin a tab is not dropped. -/
def gap (inFlow : Bool) (keyAllowed : Bool) (gs : Glyphs) : Bool × Glyphs :=
  go keyAllowed false gs
where
  go (keyAllowed comment : Bool) : Glyphs → Bool × Glyphs
    | [] => (keyAllowed, [])
    | g :: rest =>
        if isBreak g.char then go (keyAllowed || !inFlow) false rest
        else if comment then go keyAllowed true rest
        else if g.char = '\ufeff' ∧ g.place.column = 0 then go keyAllowed false rest
        else if g.char = ' ' ∨ (g.char = '\t' ∧ (inFlow ∨ !keyAllowed)) then
          go keyAllowed false rest
        else if g.char = '#' then go keyAllowed true rest
        else (keyAllowed, g :: rest)

end Glyphs

end Steward.Yaml
