import Steward.Instant
import Steward.Reader
import Steward.Toml.Node

/-!
# Numbers, dates and times in TOML

A plain value is a run of letters, digits and a few signs; what it stands for depends on its form
alone.  Digits may be set apart by single underscores.  A whole number may not start with a zero that
it could do without, and beyond words of 128 bits there are none; a fraction may not pass the largest
double.
-/

namespace Steward.Toml

/-- The digits of a number whose digits may be set apart by single underscores. -/
def digits? (isDigit : Char → Bool) : List Char → Option (List Char)
  | [] => none
  | [c] => if isDigit c then some [c] else none
  | c :: '_' :: rest => if isDigit c then (digits? isDigit rest).map (c :: ·) else none
  | c :: d :: rest => if isDigit c then (digits? isDigit (d :: rest)).map (c :: ·) else none

def isHexDigit (c : Char) : Bool := (hexValue? c).isSome

/-- Digits in a base. -/
def inBase? (base : Nat) (cs : List Char) : Option Nat :=
  digits? isHexDigit cs >>= digitsValue? base

/-- Decimal digits without a needless zero in front. -/
def decimal? (cs : List Char) : Option Nat := do
  let ds ← digits? Char.isDigit cs
  if ds.length > 1 ∧ ds.head? = some '0' then none
  digitsValue? 10 ds

/-- Whole numbers lie between the least signed and the largest unsigned word of 128 bits. -/
def int128? (n : Int) : Option Int :=
  if -(Nat.pow 2 127 : Nat) ≤ n ∧ n < (Nat.pow 2 128 : Nat) then some n else none

def integer? (cs : List Char) : Option Int := do
  let n : Int ← match cs with
    | '0' :: 'x' :: ds => (inBase? 16 ds).map Int.ofNat
    | '0' :: 'o' :: ds => (inBase? 8 ds).map Int.ofNat
    | '0' :: 'b' :: ds => (inBase? 2 ds).map Int.ofNat
    | '+' :: ds => (decimal? ds).map Int.ofNat
    | '-' :: ds => (decimal? ds).map fun n => -(n : Int)
    | ds => (decimal? ds).map Int.ofNat
  int128? n

/-! ## Fractions -/

def unsigned : List Char → Bool × List Char
  | '+' :: cs => (false, cs)
  | '-' :: cs => (true, cs)
  | cs => (false, cs)

/-- The text up to a character for which `stop` holds, and the text from it on. -/
def cut (stop : Char → Bool) (cs : List Char) : List Char × List Char :=
  (cs.takeWhile fun c => !stop c, cs.dropWhile fun c => !stop c)

def isExponentMark (c : Char) : Bool := c == 'e' || c == 'E'

/-- The least whole number that is nearer to no double than the largest one. -/
def doubleLimit : Nat := Nat.pow 2 1024 - Nat.pow 2 970

/-- The number `n * 10 ^ exponent`, where `n` has `count` digits, does not pass the largest
double. -/
def isDouble (n count : Nat) (exponent : Int) : Bool :=
  if n = 0 then true
  else if exponent + count > 400 then false
  else if exponent + count < 300 then true
  else if exponent < 0 then decide (n < doubleLimit * Nat.pow 10 exponent.natAbs)
  else decide (n * Nat.pow 10 exponent.natAbs < doubleLimit)

/-- A fraction has a point with digits on both sides, an exponent, or both. -/
def isFloat (cs : List Char) : Bool :=
  let (_, cs) := unsigned cs
  if cs = ['i', 'n', 'f'] ∨ cs = ['n', 'a', 'n'] then true
  else
    let (mantissa, exponent) := cut isExponentMark cs
    let (whole, fraction) := cut (· == '.') mantissa
    let parts : Option (Nat × Nat × Int) := do
      let _ ← decimal? whole
      let wholeDigits ← digits? Char.isDigit whole
      let fractionDigits ← match fraction with
        | [] => some []
        | _ :: ds => digits? Char.isDigit ds
      let power : Int ← match exponent with
        | [] => some 0
        | _ :: cs => do
            let (negative, ds) := unsigned cs
            let n ← digits? Char.isDigit ds >>= digitsValue? 10
            some (if negative then -(n : Int) else n)
      if fraction.isEmpty ∧ exponent.isEmpty then none
      let n ← digitsValue? 10 (wholeDigits ++ fractionDigits)
      some (n, wholeDigits.length + fractionDigits.length, power - fractionDigits.length)
    parts.any fun (n, count, exponent) => isDouble n count exponent

/-! ## Dates and times -/

/-- A number of exactly `width` digits. -/
def fixed? (width : Nat) : Reader Nat := fun cs =>
  let ds := cs.take width
  if ds.length = width ∧ ds.all Char.isDigit then
    (digitsValue? 10 ds).map fun n => (n, cs.drop width)
  else none

def mark? (c : Char) : Reader Unit
  | d :: rest => if d = c then some ((), rest) else none
  | [] => none

def date? : Reader Unit := fun cs => do
  let (year, cs) ← fixed? 4 cs
  let (_, cs) ← mark? '-' cs
  let (month, cs) ← fixed? 2 cs
  let (_, cs) ← mark? '-' cs
  let (day, cs) ← fixed? 2 cs
  if 1 ≤ month ∧ month ≤ 12 ∧ 1 ≤ day ∧ day ≤ Instant.daysIn year month then some ((), cs)
  else none

/-- The seconds of a time, with or without a fraction. -/
def seconds? : Reader Unit := fun cs => do
  let (second, cs) ← fixed? 2 cs
  let cs ← match cs with
    | '.' :: rest =>
        if rest.head?.any Char.isDigit then some (rest.dropWhile Char.isDigit) else none
    | cs => some cs
  if second ≤ 60 then some ((), cs) else none

/-- A time, of which the seconds may be left out. -/
def time? : Reader Unit := fun cs => do
  let (hour, cs) ← fixed? 2 cs
  let (_, cs) ← mark? ':' cs
  let (minute, cs) ← fixed? 2 cs
  let (_, cs) ← match cs with
    | ':' :: rest => seconds? rest
    | cs => some ((), cs)
  if hour < 24 ∧ minute < 60 then some ((), cs) else none

/-- The offset of a time from universal time. -/
def isOffset : List Char → Bool
  | [] => true
  | ['Z'] | ['z'] => true
  | c :: rest =>
      (c == '+' || c == '-') &&
      Option.isSome do
        let (hours, cs) ← fixed? 2 rest
        let (_, cs) ← mark? ':' cs
        let (minutes, cs) ← fixed? 2 cs
        if hours < 24 ∧ minutes < 60 ∧ cs.isEmpty then some () else none

def isDateTimeMark (c : Char) : Bool := c == 'T' || c == 't' || c == ' '

/-- A date, a time, or both; only both together may have an offset. -/
def isMoment (cs : List Char) : Bool :=
  match date? cs with
  | some (_, []) => true
  | some (_, c :: rest) => isDateTimeMark c && (time? rest).any fun (_, cs) => isOffset cs
  | none => (time? cs).any fun (_, cs) => cs.isEmpty

/-! ## Plain values -/

def isPlain (c : Char) : Bool :=
  c.isAlphanum || c == '_' || c == '-' || c == '+' || c == '.' || c == ':'

/-- A date that is followed by a blank and a digit goes on with a time. -/
def plainText (cs : List Char) : List Char × List Char :=
  let run := cs.takeWhile isPlain
  match cs.dropWhile isPlain with
  | ' ' :: d :: rest =>
      if d.isDigit && (date? run).any fun (_, cs) => cs.isEmpty then
        (run ++ ' ' :: (d :: rest).takeWhile isPlain, (d :: rest).dropWhile isPlain)
      else (run, ' ' :: d :: rest)
  | rest => (run, rest)

def ofPlain? (cs : List Char) : Option Node :=
  if cs = ['t', 'r', 'u', 'e'] then some (.bool true)
  else if cs = ['f', 'a', 'l', 's', 'e'] then some (.bool false)
  else
    match integer? cs with
    | some n => some (.int n)
    | none =>
        if isFloat cs then some (.float (String.ofList cs))
        else if isMoment cs then some (.moment (String.ofList cs))
        else none

def plain? : Reader Node := fun cs =>
  let (run, rest) := plainText cs
  (ofPlain? run).map fun node => (node, rest)

end Steward.Toml
