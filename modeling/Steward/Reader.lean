/-!
# Readers

A reader takes something off the front of a text and says what is left of it.  Repetition is bounded
by the text: what is read again has to be shorter than before.
-/

namespace Steward

/-- Takes a value off the front of a text. -/
abbrev Reader (α : Type) : Type := List Char → Option (α × List Char)

namespace Reader

variable {α : Type}

/-- A given text. -/
def exactly : List Char → Reader Unit
  | [], cs => some ((), cs)
  | w :: ws, c :: cs => if c = w then exactly ws cs else none
  | _ :: _, [] => none

/-- One or more items with commas between them, and the character that closes the list.  `skip`
drops what may stand around items; there may be a comma after the last item. -/
def items (skip : List Char → List Char) (close : Char) (one : Reader α) (cs : List Char) :
    Option (List α × List Char) :=
  match one cs with
  | none => none
  | some (a, rest) =>
      match skip rest with
      | [] => none
      | c :: rest =>
          if c = close then some ([a], rest)
          else if c = ',' then
            let next := skip rest
            if next.head? = some close then some ([a], next.tail)
            else if _shorter : next.length < cs.length then
              (items skip close one next).map fun (as, rest) => (a :: as, rest)
            else none
          else none
termination_by cs.length

/-- The items of a list whose opening character was read, none or more of them. -/
def enclosed (skip : List Char → List Char) (close : Char) (one : Reader α) :
    Reader (List α) := fun cs =>
  match skip cs with
  | [] => none
  | c :: rest =>
      if c = close then some ([], rest) else items skip close one (c :: rest)

end Reader

/-! ## Digits -/

def hexValue? (c : Char) : Option Nat :=
  if c.isDigit then some (c.toNat - '0'.toNat)
  else if 'a' ≤ c ∧ c ≤ 'f' then some (c.toNat - 'a'.toNat + 10)
  else if 'A' ≤ c ∧ c ≤ 'F' then some (c.toNat - 'A'.toNat + 10)
  else none

/-- The value of digits in a base; a text without digits has the value zero. -/
def digitsValue? (base : Nat) (cs : List Char) : Option Nat :=
  cs.foldlM (fun n c =>
    match hexValue? c with
    | some d => if d < base then some (n * base + d) else none
    | none => none) 0

/-- The character with a number, if there is one. -/
def char? (n : Nat) : Option Char :=
  if n.isValidChar then some (Char.ofNat n) else none

end Steward
