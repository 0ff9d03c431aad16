/-!
# Instants of the calendar

An instant is kept as the fields of its universal date and time, down to the nanosecond.  It is
written in the extended calendar format with a `Z`, with the shortest of no, three, six or nine
fraction digits that is exact, and it is read from the same format with any whole-minute offset, a
blank or a `T` between date and time, and white space between the parts.  A second may be numbered 60.
-/

namespace Steward

structure Instant where
  year : Int
  month : Nat
  day : Nat
  hour : Nat
  minute : Nat
  second : Nat
  nanos : Nat
  deriving DecidableEq, Repr

namespace Instant

def isLeap (year : Int) : Bool :=
  year % 4 == 0 && (year % 100 != 0 || year % 400 == 0)

def daysIn (year : Int) : Nat → Nat
  | 2 => if isLeap year then 29 else 28
  | 4 | 6 | 9 | 11 => 30
  | _ => 31

def firstYear : Int := -262143

def lastYear : Int := 262142

structure Valid (t : Instant) : Prop where
  year_ge : firstYear ≤ t.year
  year_le : t.year ≤ lastYear
  month_pos : 1 ≤ t.month
  month_le : t.month ≤ 12
  day_pos : 1 ≤ t.day
  day_le : t.day ≤ daysIn t.year t.month
  hour_lt : t.hour < 24
  minute_lt : t.minute < 60
  second_le : t.second ≤ 60
  nanos_lt : t.nanos < 1000000000

def isValid (t : Instant) : Bool :=
  decide (firstYear ≤ t.year) && decide (t.year ≤ lastYear) &&
  decide (1 ≤ t.month) && decide (t.month ≤ 12) &&
  decide (1 ≤ t.day) && decide (t.day ≤ daysIn t.year t.month) &&
  decide (t.hour < 24) && decide (t.minute < 60) && decide (t.second ≤ 60) &&
  decide (t.nanos < 1000000000)

theorem isValid_iff {t : Instant} : t.isValid = true ↔ t.Valid := by
  simp only [isValid, Bool.and_eq_true, decide_eq_true_eq]
  constructor
  · rintro ⟨⟨⟨⟨⟨⟨⟨⟨⟨a, b⟩, c⟩, d⟩, e⟩, f⟩, g⟩, h⟩, i⟩, j⟩
    exact ⟨a, b, c, d, e, f, g, h, i, j⟩
  · rintro ⟨a, b, c, d, e, f, g, h, i, j⟩
    exact ⟨⟨⟨⟨⟨⟨⟨⟨⟨a, b⟩, c⟩, d⟩, e⟩, f⟩, g⟩, h⟩, i⟩, j⟩

/-- The first instant of 1970. -/
def epoch : Instant := ⟨1970, 1, 1, 0, 0, 0, 0⟩

def dayBefore (t : Instant) : Instant :=
  if 1 < t.day then { t with day := t.day - 1 }
  else if 1 < t.month then { t with month := t.month - 1, day := daysIn t.year (t.month - 1) }
  else { t with year := t.year - 1, month := 12, day := 31 }

def dayAfter (t : Instant) : Instant :=
  if t.day < daysIn t.year t.month then { t with day := t.day + 1 }
  else if t.month < 12 then { t with month := t.month + 1, day := 1 }
  else { t with year := t.year + 1, month := 1, day := 1 }

/-- The universal time of a clock that shows `t` and runs `offset` minutes ahead, for an offset of
less than a day. -/
def behind (t : Instant) (offset : Int) : Instant :=
  let minutes : Int := t.hour * 60 + t.minute - offset
  let onDay (day : Instant) (m : Int) : Instant :=
    { day with hour := (m / 60).toNat, minute := (m % 60).toNat }
  if minutes < 0 then onDay t.dayBefore (minutes + 1440)
  else if 1440 ≤ minutes then onDay t.dayAfter (minutes - 1440)
  else onDay t minutes

/-! ## Writing -/

/-- The decimal digits of `n`, with zeros in front up to `width` digits. -/
def padded (width n : Nat) : List Char :=
  let digits := Nat.toDigits 10 n
  List.replicate (width - digits.length) '0' ++ digits

def yearText (year : Int) : List Char :=
  if 0 ≤ year ∧ year ≤ 9999 then padded 4 year.toNat
  else (if year < 0 then '-' else '+') :: padded 4 year.natAbs

def fractionText (nanos : Nat) : List Char :=
  if nanos = 0 then []
  else if nanos % 1000000 = 0 then '.' :: padded 3 (nanos / 1000000)
  else if nanos % 1000 = 0 then '.' :: padded 6 (nanos / 1000)
  else '.' :: padded 9 nanos

def chars (t : Instant) : List Char :=
  yearText t.year ++ '-' :: padded 2 t.month ++ '-' :: padded 2 t.day ++
  'T' :: padded 2 t.hour ++ ':' :: padded 2 t.minute ++ ':' :: padded 2 t.second ++
  fractionText t.nanos ++ ['Z']

def text (t : Instant) : String := String.ofList t.chars

/-! ## Reading -/

/-- White space of any kind, line breaks included. -/
def isSpace (c : Char) : Bool :=
  ('\t' ≤ c && c ≤ '\r') || ('\u2000' ≤ c && c ≤ '\u200a') ||
  [' ', '\u0085', '\u00a0', '\u1680', '\u2028', '\u2029', '\u202f', '\u205f', '\u3000'].contains c

def skipSpace (cs : List Char) : List Char := cs.dropWhile isSpace

/-- Between one and `most` digits at the front: how many there are, their value, and what follows. -/
def digits? (most : Nat) (cs : List Char) : Option (Nat × Nat × List Char) :=
  let ds := (cs.take most).takeWhile Char.isDigit
  if ds.isEmpty then none
  else some (ds.length, Nat.ofDigitChars 10 ds 0, cs.drop ds.length)

/-- A number of at most `most` digits, with white space allowed in front. -/
def number? (most : Nat) (cs : List Char) : Option (Nat × List Char) :=
  (digits? most (skipSpace cs)).map fun (_, n, rest) => (n, rest)

/-- The sign `c`, with white space allowed in front. -/
def mark? (c : Char) (cs : List Char) : Option (List Char) :=
  match skipSpace cs with
  | d :: rest => if d = c then some rest else none
  | [] => none

/-- A year: four digits at most, or any number of digits after a sign. -/
def year? (cs : List Char) : Option (Int × List Char) :=
  match skipSpace cs with
  | '-' :: rest => (digits? rest.length rest).map fun (_, n, rest) => (-(n : Int), rest)
  | '+' :: rest => (digits? rest.length rest).map fun (_, n, rest) => ((n : Int), rest)
  | cs => (digits? 4 cs).map fun (_, n, rest) => ((n : Int), rest)

/-- A fraction of a second in nanoseconds; digits after the ninth do not count. -/
def fraction? : List Char → Option (Nat × List Char)
  | '.' :: rest =>
      (digits? 9 rest).map fun (count, n, rest) =>
        (n * Nat.pow 10 (9 - count), rest.dropWhile Char.isDigit)
  | cs => some (0, cs)

def twoDigits? : List Char → Option (Nat × List Char)
  | a :: b :: rest =>
      if a.isDigit && b.isDigit then some (Nat.ofDigitChars 10 [a, b] 0, rest) else none
  | _ => none

/-- An offset from universal time in minutes. -/
def offset? : List Char → Option (Int × List Char)
  | 'Z' :: rest | 'z' :: rest => some (0, rest)
  | u :: t :: c :: rest =>
      if [u, t, c].map Char.toUpper = ['U', 'T', 'C'] then some (0, rest)
      else
        let magnitude (cs : List Char) : Option (Nat × List Char) := do
          let (hours, cs) ← twoDigits? cs
          let (minutes, cs) ← twoDigits? (cs.dropWhile fun c => c == ':' || isSpace c)
          if hours < 24 ∧ minutes < 60 then some (hours * 60 + minutes, cs) else none
        if u = '+' then (magnitude (t :: c :: rest)).map fun (m, cs) => ((m : Int), cs)
        else if u = '-' ∨ u = '−' then
          (magnitude (t :: c :: rest)).map fun (m, cs) => (-(m : Int), cs)
        else none
  | _ => none

def ofChars? (cs : List Char) : Option Instant := do
  let (year, cs) ← year? cs
  let (month, cs) ← number? 2 (← mark? '-' cs)
  let (day, cs) ← number? 2 (← mark? '-' cs)
  let cs ← match cs with
    | 'T' :: rest | 't' :: rest | ' ' :: rest => some rest
    | _ => none
  let (hour, cs) ← number? 2 cs
  let (minute, cs) ← number? 2 (← mark? ':' cs)
  let (second, cs) ← number? 2 (← mark? ':' cs)
  let (nanos, cs) ← fraction? cs
  let (offset, cs) ← offset? (skipSpace cs)
  let shown : Instant := ⟨year, month, day, hour, minute, second, nanos⟩
  let t := shown.behind offset
  if (skipSpace cs).isEmpty && shown.isValid && t.isValid then some t else none

def ofText? (s : String) : Option Instant := ofChars? s.toList

end Instant

end Steward
