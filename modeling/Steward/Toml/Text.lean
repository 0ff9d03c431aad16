import Steward.Reader

/-!
# Texts in TOML

A text is written in one of four styles: basic texts know escapes and literal texts do not, and
either may be spread over lines.  Reading accepts all four.  Writing takes the first style in which
the text needs no escape, and a basic one when there is none.
-/

namespace Steward.Toml

/-- A character that has to be escaped wherever it stands, the tab and the line feed apart. -/
def isControl (c : Char) : Bool :=
  (c.toNat < 0x20 || c.toNat == 0x7f) && c != '\t' && c != '\n'

def isInline (c : Char) : Bool := !isControl c && c != '\n'

/-! ## Reading -/

/-- A number of hexadecimal digits that name a character. -/
def codePoint? (width : Nat) : Reader Char := fun cs => do
  let digits := cs.take width
  if digits.length < width then none
  let c ← digitsValue? 16 digits >>= char?
  return (c, cs.drop width)

/-- What follows the backslash of an escape. -/
def escape? : Reader Char
  | [] => none
  | c :: rest =>
      match c with
      | 'b' => some ('\x08', rest)
      | 't' => some ('\t', rest)
      | 'n' => some ('\n', rest)
      | 'f' => some ('\x0c', rest)
      | 'r' => some ('\r', rest)
      | 'e' => some ('\x1b', rest)
      | '"' => some ('"', rest)
      | '\\' => some ('\\', rest)
      | 'x' => codePoint? 2 rest
      | 'u' => codePoint? 4 rest
      | 'U' => codePoint? 8 rest
      | _ => none

/-- The rest of a basic text on one line. -/
def basic? (cs : List Char) : Option (List Char × List Char) :=
  match cs with
  | [] => none
  | c :: rest =>
      if c = '"' then some ([], rest)
      else if c = '\\' then
        match escape? rest with
        | none => none
        | some (d, next) =>
            if _shorter : next.length ≤ rest.length then
              (basic? next).map fun (ds, rest) => (d :: ds, rest)
            else none
      else if isInline c then (basic? rest).map fun (ds, rest) => (c :: ds, rest)
      else none
termination_by cs.length

/-- The rest of a literal text on one line. -/
def literal? : Reader (List Char)
  | [] => none
  | c :: rest =>
      if c = '\'' then some ([], rest)
      else if isInline c then (literal? rest).map fun (ds, rest) => (c :: ds, rest)
      else none

/-- The end of a text over several lines: three quotes, before which up to two more belong to the
text. -/
def closing? (quote : Char) (cs : List Char) : Option (List Char × List Char) :=
  let count := ((cs.take 5).takeWhile (· == quote)).length
  if 3 ≤ count then some (List.replicate (count - 3) quote, cs.drop count) else none

/-- A line break; a carriage return counts only before a line feed. -/
def lineBreak? : Reader (List Char)
  | '\n' :: rest => some (['\n'], rest)
  | '\r' :: '\n' :: rest => some (['\r', '\n'], rest)
  | _ => none

/-- What is left after a line break at the front. -/
def dropLineBreak (cs : List Char) : List Char := ((lineBreak? cs).map Prod.snd).getD cs

def isBlank (c : Char) : Bool := c == ' ' || c == '\t'

/-- Drops blanks and line breaks; a carriage return goes only with its line feed. -/
def dropLines : List Char → List Char
  | '\r' :: '\n' :: rest => dropLines rest
  | c :: rest => if isBlank c || c == '\n' then dropLines rest else c :: rest
  | [] => []

/-- The rest of a basic text over several lines.  A backslash at the end of a line joins it with what
follows on a later line. -/
def basicLines? (cs : List Char) : Option (List Char × List Char) :=
  match closing? '"' cs with
  | some found => some found
  | none =>
      match cs with
      | [] => none
      | c :: rest =>
          if c = '\\' then
            match lineBreak? (rest.dropWhile isBlank) with
            | some (_, next) =>
                if _shorter : (dropLines next).length ≤ rest.length then
                  basicLines? (dropLines next)
                else none
            | none =>
                match escape? rest with
                | none => none
                | some (d, next) =>
                    if _shorter : next.length ≤ rest.length then
                      (basicLines? next).map fun (ds, rest) => (d :: ds, rest)
                    else none
          else
            match lineBreak? cs with
            | some (br, next) =>
                if _shorter : next.length ≤ rest.length then
                  (basicLines? next).map fun (ds, rest) => (br ++ ds, rest)
                else none
            | none =>
                if isInline c then (basicLines? rest).map fun (ds, rest) => (c :: ds, rest)
                else none
termination_by cs.length

/-- The rest of a literal text over several lines. -/
def literalLines? (cs : List Char) : Option (List Char × List Char) :=
  match closing? '\'' cs with
  | some found => some found
  | none =>
      match cs with
      | [] => none
      | c :: rest =>
          match lineBreak? cs with
          | some (br, next) =>
              if _shorter : next.length ≤ rest.length then
                (literalLines? next).map fun (ds, rest) => (br ++ ds, rest)
              else none
          | none =>
              if isInline c then (literalLines? rest).map fun (ds, rest) => (c :: ds, rest)
              else none
termination_by cs.length

/-- A text of any style. -/
def text? : Reader (List Char)
  | '"' :: '"' :: '"' :: rest => basicLines? (dropLineBreak rest)
  | '\'' :: '\'' :: '\'' :: rest => literalLines? (dropLineBreak rest)
  | '"' :: rest => basic? rest
  | '\'' :: rest => literal? rest
  | _ => none

/-- A text on one line. -/
def lineText? : Reader (List Char)
  | '"' :: rest => basic? rest
  | '\'' :: rest => literal? rest
  | _ => none

/-! ## Writing -/

inductive Style where
  | basic
  | literal
  | basicLines
  | literalLines
  deriving DecidableEq, Repr

/-- The length of the longest run of a character. -/
def longestRun (q : Char) (cs : List Char) : Nat :=
  go 0 0 cs
where
  go (longest current : Nat) : List Char → Nat
    | [] => max longest current
    | c :: rest =>
        if c = q then go longest (current + 1) rest else go (max longest current) 0 rest

namespace Style

/-- The first style in which a text needs no escape, the tab apart. -/
def choose (cs : List Char) : Style :=
  let lines := cs.contains '\n'
  if cs.any isControl then if lines then basicLines else basic
  else
    let backslash := cs.contains '\\'
    if !backslash && !cs.contains '"' && !lines then basic
    else if !cs.contains '\'' && !lines then literal
    else if !backslash && longestRun '"' cs ≤ 2 then basicLines
    else if longestRun '\'' cs ≤ 2 then literalLines
    else if lines then basicLines
    else basic

end Style

def hexDigits (width n : Nat) : List Char :=
  let digits := (Nat.toDigits 16 n).map Char.toUpper
  List.replicate (width - digits.length) '0' ++ digits

/-- A character in a basic text; quotes are looked after elsewhere. -/
def escaped (c : Char) : List Char :=
  match c with
  | '\x08' => ['\\', 'b']
  | '\t' => ['\\', 't']
  | '\n' => ['\\', 'n']
  | '\x0c' => ['\\', 'f']
  | '\r' => ['\\', 'r']
  | '"' => ['\\', '"']
  | '\\' => ['\\', '\\']
  | c => if isControl c then '\\' :: 'u' :: hexDigits 4 c.toNat else [c]

/-- The inside of a basic text over several lines, where `run` quotes came just before: the third of
three quotes is escaped. -/
def escapedLines (run : Nat) : List Char → List Char
  | [] => []
  | c :: rest =>
      if c = '"' then
        if run < 2 then '"' :: escapedLines (run + 1) rest
        else '\\' :: '"' :: escapedLines 0 rest
      else if c = '\n' then '\n' :: escapedLines 0 rest
      else escaped c ++ escapedLines 0 rest

/-- A text in a style.  A text over several lines that has a line break starts on a line of its
own. -/
def writtenAs (style : Style) (cs : List Char) : List Char :=
  let start := if cs.contains '\n' then ['\n'] else []
  match style with
  | .basic => '"' :: cs.flatMap escaped ++ ['"']
  | .literal => '\'' :: cs ++ ['\'']
  | .basicLines => ['"', '"', '"'] ++ start ++ escapedLines 0 cs ++ ['"', '"', '"']
  | .literalLines => ['\'', '\'', '\''] ++ start ++ cs ++ ['\'', '\'', '\'']

def written (s : String) : List Char := writtenAs (Style.choose s.toList) s.toList

end Steward.Toml
