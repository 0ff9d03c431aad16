import Steward.Value

/-!
# Writing JSON

Structured values as JSON text, one item on a line and two blanks for every level.  Empty lists and
maps stay on one line.  Control characters are escaped, the common ones by letters.
-/

namespace Steward.Json

/-- A character inside a text. -/
def escaped (c : Char) : List Char :=
  match c with
  | '"' => ['\\', '"']
  | '\\' => ['\\', '\\']
  | '\x08' => ['\\', 'b']
  | '\t' => ['\\', 't']
  | '\n' => ['\\', 'n']
  | '\x0c' => ['\\', 'f']
  | '\r' => ['\\', 'r']
  | c =>
      if c.toNat < 0x20 then
        '\\' :: 'u' :: '0' :: '0' ::
          [Nat.digitChar (c.toNat / 16), Nat.digitChar (c.toNat % 16)]
      else [c]

def textChars (s : String) : List Char := '"' :: s.toList.flatMap escaped ++ ['"']

def intChars (n : Int) : List Char :=
  if n < 0 then '-' :: Nat.toDigits 10 n.natAbs else Nat.toDigits 10 n.natAbs

/-- The fraction `mantissa / 10 ^ places`. -/
def decimalChars (mantissa : Int) (places : Nat) : List Char :=
  let digits := Nat.toDigits 10 mantissa.natAbs
  let digits := List.replicate (places + 1 - digits.length) '0' ++ digits
  let whole := digits.length - places
  (if mantissa < 0 then ['-'] else []) ++ digits.take whole ++ '.' :: digits.drop whole

def newline (level : Nat) : List Char := '\n' :: List.replicate (2 * level) ' '

mutual

/-- A value whose items are set in by one level more than `level`. -/
def chars (level : Nat) : Value → List Char
  | .null => "null".toList
  | .bool flag => (if flag then "true" else "false").toList
  | .int n => intChars n
  | .decimal mantissa places => decimalChars mantissa places
  | .text s => textChars s
  | .list [] => ['[', ']']
  | .list (item :: items) =>
      '[' :: newline (level + 1) ++ chars (level + 1) item ++ moreItems (level + 1) items ++
        newline level ++ [']']
  | .map [] => ['\x7b', '\x7d']
  | .map ((name, v) :: entries) =>
      '\x7b' :: newline (level + 1) ++ textChars name ++ ':' :: ' ' :: chars (level + 1) v ++
        moreEntries (level + 1) entries ++ newline level ++ ['\x7d']

def moreItems (level : Nat) : List Value → List Char
  | [] => []
  | item :: items => ',' :: newline level ++ chars level item ++ moreItems level items

def moreEntries (level : Nat) : List (String × Value) → List Char
  | [] => []
  | (name, v) :: entries =>
      ',' :: newline level ++ textChars name ++ ':' :: ' ' :: chars level v ++
        moreEntries level entries

end

/-- A value as text. -/
def pretty (v : Value) : String := String.ofList (chars 0 v)

end Steward.Json
