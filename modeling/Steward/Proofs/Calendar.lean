import Mathlib.Algebra.Group.Nat.Defs
import Mathlib.Tactic.SplitIfs
import Steward.Instant

/-!
# Instants come back as they were written

What is written for a valid instant reads as that instant, to the nanosecond.  Every number is
written with digits only and is followed by a sign or by the end of the fraction, so its reader
stops where its writer did.  A year outside four digits has a sign in front, which lets its reader
take as many digits as there are.  Whatever was read from a text is valid.
-/

namespace Steward.Instant

variable {c : Char} {cs ds rest : List Char} {n width most : Nat} {t : Instant}

/-! ## Digits -/

theorem isDigit_of_mem_padded (mem : c ∈ padded width n) : c.isDigit = true := by
  obtain zero | digit := List.mem_append.mp mem
  · rw [List.eq_of_mem_replicate zero]
    decide
  · exact Nat.isDigit_of_mem_toDigits (by decide) (by decide) digit

/-- Zeros in front of a number do not count. -/
theorem ofDigitChars_padded (width n : Nat) : Nat.ofDigitChars 10 (padded width n) 0 = n := by
  rw [padded, Nat.ofDigitChars_append, Nat.ofDigitChars_replicate_zero, Nat.mul_zero,
    Nat.ofDigitChars_ten_toDigits]

theorem length_padded (positive : 0 < width) (fits : n < 10 ^ width) :
    (padded width n).length = width := by
  have short := (Nat.length_toDigits_le_iff (b := 10) (by decide) positive).mpr fits
  rw [padded, List.length_append, List.length_replicate]
  omega

theorem padded_ne_nil (width n : Nat) : padded width n ≠ [] :=
  List.append_ne_nil_of_right_ne_nil _ Nat.toDigits_ne_nil

theorem isSpace_of_isDigit (digit : c.isDigit = true) : isSpace c = false := by
  obtain ⟨low, high⟩ := Char.isDigit_iff_toNat.mp digit
  have low : 48 ≤ c.toNat := low
  have high : c.toNat ≤ 57 := high
  have decided : ∀ k < 10, isSpace (Char.ofNat (48 + k)) = false := by decide
  have dark := decided (c.toNat - 48) (by omega)
  rwa [Nat.add_sub_cancel' low, Char.ofNat_toNat] at dark

theorem skipSpace_cons (dark : isSpace c = false) (cs : List Char) :
    skipSpace (c :: cs) = c :: cs :=
  List.dropWhile_cons_of_neg (by simp [dark])

theorem skipSpace_digits (nonempty : ds ≠ []) (digits : ∀ c ∈ ds, c.isDigit = true) :
    skipSpace (ds ++ rest) = ds ++ rest := by
  obtain ⟨d, ds, rfl⟩ := List.exists_cons_of_ne_nil nonempty
  exact skipSpace_cons (isSpace_of_isDigit (digits d List.mem_cons_self)) _

/-- A run of digits is read as a whole when there is no room for more of them, or none follows. -/
theorem digits?_append (nonempty : ds ≠ []) (digits : ∀ c ∈ ds, c.isDigit = true)
    (room : ds.length ≤ most)
    (ends : ds.length = most ∨ ∃ c cs, rest = c :: cs ∧ c.isDigit = false) :
    digits? most (ds ++ rest) = some (ds.length, Nat.ofDigitChars 10 ds 0, rest) := by
  have run : ((ds ++ rest).take most).takeWhile Char.isDigit = ds := by
    rw [List.take_append, List.take_of_length_le room, List.takeWhile_append_of_pos digits]
    obtain full | ⟨c, cs, rfl, stops⟩ := ends
    · rw [full, Nat.sub_self, List.take_zero, List.takeWhile_nil, List.append_nil]
    · cases most - ds.length with
      | zero => rw [List.take_zero, List.takeWhile_nil, List.append_nil]
      | succ left =>
          rw [List.take_succ_cons, List.takeWhile_cons_of_neg (by simp [stops]),
            List.append_nil]
  rw [digits?, run]
  simp only [List.isEmpty_eq_false_iff.mpr nonempty, Bool.false_eq_true, if_false,
    List.drop_left]

/-- What is written with as many digits as its reader takes is read back. -/
theorem digits?_padded (positive : 0 < width) (fits : n < 10 ^ width) (rest : List Char) :
    digits? width (padded width n ++ rest) = some (width, n, rest) := by
  have length := length_padded positive fits
  rw [digits?_append (padded_ne_nil width n) (fun _ => isDigit_of_mem_padded)
    (Nat.le_of_eq length) (.inl length), length, ofDigitChars_padded]

theorem number?_padded (positive : 0 < width) (fits : n < 10 ^ width) (rest : List Char) :
    number? width (padded width n ++ rest) = some (n, rest) := by
  rw [number?, skipSpace_digits (padded_ne_nil width n) fun _ => isDigit_of_mem_padded,
    digits?_padded positive fits]
  rfl

theorem mark?_cons (dark : isSpace c = false) (cs : List Char) : mark? c (c :: cs) = some cs := by
  rw [mark?, skipSpace_cons dark]
  exact if_pos rfl

/-! ## Years and fractions -/

/-- Behind a sign a year has as many digits as it needs. -/
theorem digits?_signed (n : Nat) (cs : List Char) :
    digits? (padded 4 n ++ '-' :: cs).length (padded 4 n ++ '-' :: cs) =
      some ((padded 4 n).length, n, '-' :: cs) := by
  rw [digits?_append (padded_ne_nil 4 n) (fun _ => isDigit_of_mem_padded)
    (by rw [List.length_append]; exact Nat.le_add_right _ _) (.inr ⟨'-', cs, rfl, rfl⟩),
    ofDigitChars_padded]

theorem year?_yearText (year : Int) (cs : List Char) :
    year? (yearText year ++ '-' :: cs) = some (year, '-' :: cs) := by
  unfold yearText
  split_ifs with plain negative
  · have fits : year.toNat < 10 ^ 4 := by omega
    have unsigned : ∀ ds, ds ≠ [] → (∀ c ∈ ds, c.isDigit = true) → ∀ rest,
        year? (ds ++ rest) =
          (digits? 4 (ds ++ rest)).map fun found => ((found.2.1 : Int), found.2.2) := by
      intro ds nonempty digits rest
      obtain ⟨d, ds, rfl⟩ := List.exists_cons_of_ne_nil nonempty
      have digit := digits d List.mem_cons_self
      rw [year?, skipSpace_digits nonempty digits]
      split
      · next same => cases same; cases digit
      · next same => cases same; cases digit
      · rfl
    rw [unsigned _ (padded_ne_nil 4 _) fun _ => isDigit_of_mem_padded,
      digits?_padded (by decide) fits]
    simp only [Option.map_some, Int.toNat_of_nonneg plain.1]
  · rw [List.cons_append, year?, skipSpace_cons (by decide)]
    have named : -(year.natAbs : Int) = year := by omega
    simp only [digits?_signed, Option.map_some, named]
  · rw [List.cons_append, year?, skipSpace_cons (by decide)]
    have named : (year.natAbs : Int) = year := by omega
    simp only [digits?_signed, Option.map_some, named]

/-- A fraction is written with a multiple of the digits that it can do without. -/
theorem fraction?_padded (positive : 0 < width) (narrow : width ≤ 9) (fits : n < 10 ^ width)
    (cs : List Char) :
    fraction? ('.' :: padded width n ++ 'Z' :: cs) = some (n * 10 ^ (9 - width), 'Z' :: cs) := by
  have length := length_padded positive fits
  rw [List.cons_append, fraction?,
    digits?_append (padded_ne_nil width n) (fun _ => isDigit_of_mem_padded)
      (by rwa [length]) (.inr ⟨'Z', cs, rfl, rfl⟩), ofDigitChars_padded, length]
  rfl

theorem fraction?_fractionText (short : n < 1000000000) (cs : List Char) :
    fraction? (fractionText n ++ 'Z' :: cs) = some (n, 'Z' :: cs) := by
  unfold fractionText
  split_ifs with zero millis micros
  · rw [zero]
    rfl
  · rw [fraction?_padded (by decide) (by decide) (by omega),
      show n / 1000000 * 10 ^ (9 - 3) = n by omega]
  · rw [fraction?_padded (by decide) (by decide) (by omega),
      show n / 1000 * 10 ^ (9 - 6) = n by omega]
  · rw [fraction?_padded (by decide) (by decide) (by omega), Nat.sub_self, Nat.pow_zero,
      Nat.mul_one]

/-! ## Whole instants -/

theorem behind_zero (hour : t.hour < 24) (minute : t.minute < 60) : t.behind 0 = t := by
  have within : ¬(t.hour * 60 + t.minute - 0 : Int) < 0 := by omega
  have sameDay : ¬(1440 ≤ (t.hour * 60 + t.minute - 0 : Int)) := by omega
  unfold behind
  simp only [within, sameDay, if_false]
  have hours : ((t.hour * 60 + t.minute - 0 : Int) / 60).toNat = t.hour := by omega
  have minutes : ((t.hour * 60 + t.minute - 0 : Int) % 60).toNat = t.minute := by omega
  rw [hours, minutes]

theorem daysIn_le (year : Int) (month : Nat) : daysIn year month ≤ 31 := by
  unfold daysIn
  split
  · split <;> decide
  all_goals decide

theorem chars_eq (t : Instant) :
    t.chars = yearText t.year ++ '-' :: (padded 2 t.month ++ '-' :: (padded 2 t.day ++ 'T' ::
      (padded 2 t.hour ++ ':' :: (padded 2 t.minute ++ ':' :: (padded 2 t.second ++
        (fractionText t.nanos ++ ['Z'])))))) := by
  simp only [chars, List.append_assoc, List.cons_append]

/-- A valid instant is read from its text. -/
theorem ofText?_text (valid : t.Valid) : ofText? t.text = some t := by
  have dayIn := daysIn_le t.year t.month
  have month : t.month < 10 ^ 2 := by have := valid.month_le; omega
  have day : t.day < 10 ^ 2 := by have := valid.day_le; omega
  have hour : t.hour < 10 ^ 2 := by have := valid.hour_lt; omega
  have minute : t.minute < 10 ^ 2 := by have := valid.minute_lt; omega
  have second : t.second < 10 ^ 2 := by have := valid.second_le; omega
  have itself := behind_zero valid.hour_lt valid.minute_lt
  have dash : isSpace '-' = false := by decide
  have colon : isSpace ':' = false := by decide
  rw [ofText?, text, String.toList_ofList, chars_eq, ofChars?]
  refine Option.bind_eq_some_iff.mpr ⟨_, year?_yearText t.year _, ?_⟩
  refine Option.bind_eq_some_iff.mpr ⟨_, mark?_cons dash _, ?_⟩
  refine Option.bind_eq_some_iff.mpr ⟨_, number?_padded Nat.two_pos month _, ?_⟩
  refine Option.bind_eq_some_iff.mpr ⟨_, mark?_cons dash _, ?_⟩
  refine Option.bind_eq_some_iff.mpr ⟨_, number?_padded Nat.two_pos day _, ?_⟩
  -- The letter between date and time stands first in what is left.
  refine Option.bind_eq_some_iff.mpr ⟨_, rfl, ?_⟩
  refine Option.bind_eq_some_iff.mpr ⟨_, number?_padded Nat.two_pos hour _, ?_⟩
  refine Option.bind_eq_some_iff.mpr ⟨_, mark?_cons colon _, ?_⟩
  refine Option.bind_eq_some_iff.mpr ⟨_, number?_padded Nat.two_pos minute _, ?_⟩
  refine Option.bind_eq_some_iff.mpr ⟨_, mark?_cons colon _, ?_⟩
  refine Option.bind_eq_some_iff.mpr ⟨_, number?_padded Nat.two_pos second _, ?_⟩
  refine Option.bind_eq_some_iff.mpr ⟨_, fraction?_fractionText valid.nanos_lt [], ?_⟩
  have noOffset : offset? (skipSpace ['Z']) = some (0, []) := rfl
  refine Option.bind_eq_some_iff.mpr ⟨_, noOffset, ?_⟩
  have atEnd : (skipSpace []).isEmpty = true := rfl
  simp only [itself, atEnd, isValid_iff.mpr valid, Bool.and_self, if_true]

/-- Whatever is read from a text is valid. -/
theorem valid_of_ofText? {s : String} (read : ofText? s = some t) : t.Valid := by
  have checked {shown : Instant} {offset : Int × List Char}
      (result : (if (skipSpace offset.2).isEmpty && shown.isValid &&
        (shown.behind offset.1).isValid then some (shown.behind offset.1) else none) = some t) :
      t.Valid := by
    obtain ⟨valid, same⟩ := Option.ite_none_right_eq_some.mp result
    rw [← Option.some_inj.mp same]
    exact isValid_iff.mp (Bool.and_eq_true_iff.mp valid).2
  rw [ofText?, ofChars?] at read
  iterate 5 obtain ⟨_, -, read⟩ := Option.bind_eq_some_iff.mp read
  dsimp only at read
  -- The same follows whichever sign stands between date and time.
  split at read
  all_goals
    iterate 8 obtain ⟨_, -, read⟩ := Option.bind_eq_some_iff.mp read
    exact checked read

end Steward.Instant
