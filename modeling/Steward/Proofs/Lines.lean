import Steward.Proofs.Texts
import Steward.Toml.Document

/-!
# Lines of TOML documents

A line that opens a table, or that gives a text or a whole number to a bare key, is read as the one
statement that it was written for, up to the end of the line.  Whole numbers are written with
decimal digits and without a needless zero, so they are never taken for anything else that is plain.
-/

namespace Steward.Toml

variable {c : Char} {cs ds rest next value : List Char} {n : Nat} {key : String} {node : Node}

/-! ## Whole numbers -/

theorem hexValue?_of_isDigit (digit : c.isDigit = true) :
    hexValue? c = some (c.toNat - '0'.toNat) ∧ c.toNat - '0'.toNat < 10 := by
  refine ⟨if_pos digit, ?_⟩
  have range := Char.isDigit_iff_toNat.mp digit
  have bound : '9'.toNat = '0'.toNat + 9 := rfl
  omega

theorem foldlM_digits (digits : ∀ c ∈ cs, c.isDigit = true) (start : Nat) :
    cs.foldlM (fun n c =>
      match hexValue? c with
      | some d => if d < 10 then some (n * 10 + d) else none
      | none => none) start = some (Nat.ofDigitChars 10 cs start) := by
  induction cs generalizing start with
  | nil => rfl
  | cons c cs ih =>
      obtain ⟨digit, digits⟩ := List.forall_mem_cons.mp digits
      obtain ⟨value, small⟩ := hexValue?_of_isDigit digit
      rw [List.foldlM_cons, value]
      simp only [if_pos small]
      rw [Nat.mul_comm]
      exact ih digits _

theorem isDigit_of_mem (mem : c ∈ Nat.toDigits 10 n) : c.isDigit = true :=
  Nat.isDigit_of_mem_toDigits (by decide) (by decide) mem

theorem digitsValue?_toDigits (n : Nat) : digitsValue? 10 (Nat.toDigits 10 n) = some n :=
  (foldlM_digits (fun _ => isDigit_of_mem) 0).trans
    (congrArg some (Nat.ofDigitChars_toDigits (by decide) (by decide)))

theorem digits?_eq_self (nonempty : cs ≠ []) (digits : ∀ c ∈ cs, c.isDigit = true) :
    digits? Char.isDigit cs = some cs := by
  induction cs with
  | nil => exact absurd rfl nonempty
  | cons c cs ih =>
      obtain ⟨digit, digits⟩ := List.forall_mem_cons.mp digits
      cases cs with
      | nil => rw [digits?, if_pos digit]
      | cons d cs =>
          have joined : d ≠ '_' := by
            rintro rfl
            exact absurd (digits '_' List.mem_cons_self) (by decide)
          rw [digits?.eq_4 _ _ _ _ joined, if_pos digit, ih (List.cons_ne_nil d cs) digits]
          rfl

/-- No number but zero is written with a zero in front. -/
theorem head?_toDigits (positive : 0 < n) : (Nat.toDigits 10 n).head? ≠ some '0' := by
  induction n using Nat.strongRecOn with
  | ind n ih =>
      by_cases small : n < 10
      · rw [Nat.toDigits_of_lt_base small, List.head?_cons]
        have nonzero : ∀ d < 10, 0 < d → d.digitChar ≠ '0' := by decide
        exact fun zero => nonzero n small positive (Option.some.inj zero)
      · have large : 10 ≤ n := Nat.le_of_not_lt small
        have front := ih (n / 10) (by omega) (by omega)
        obtain ⟨d, ds, same⟩ := List.exists_cons_of_ne_nil
          (Nat.toDigits_ne_nil (n := n / 10) (b := 10))
        rw [Nat.toDigits_of_base_le (by decide) large, same]
        rw [same] at front
        exact front

theorem decimal?_toDigits (n : Nat) : decimal? (Nat.toDigits 10 n) = some n := by
  have plain : ¬ ((Nat.toDigits 10 n).length > 1 ∧ (Nat.toDigits 10 n).head? = some '0') := by
    rintro ⟨long, zero⟩
    obtain rfl | positive := n.eq_zero_or_pos
    · exact absurd long (by decide)
    · exact head?_toDigits positive zero
  simp only [decimal?, digits?_eq_self Nat.toDigits_ne_nil fun _ => isDigit_of_mem,
    Option.bind_eq_bind, Option.bind_some, if_neg plain, digitsValue?_toDigits]

/-- The form of a decimal number is not that of one in another base or of one with a sign. -/
theorem integer?_of_digits (digits : ∀ c ∈ cs, c.isDigit = true) :
    integer? cs = (decimal? cs).map Int.ofNat >>= int128? := by
  have apart {c : Char} (mem : c ∈ cs) (other : c.isDigit = false) : False :=
    Bool.false_ne_true (other.symm.trans (digits c mem))
  -- Other bases are marked by a letter in the second place, and signs stand in the first.
  unfold integer?
  split
  · exact (apart (List.mem_cons_of_mem _ List.mem_cons_self) (by decide)).elim
  · exact (apart (List.mem_cons_of_mem _ List.mem_cons_self) (by decide)).elim
  · exact (apart (List.mem_cons_of_mem _ List.mem_cons_self) (by decide)).elim
  · exact (apart List.mem_cons_self (by decide)).elim
  · exact (apart List.mem_cons_self (by decide)).elim
  · rfl

/-- Every word of 64 bits is among the whole numbers there are. -/
theorem int128?_of_le (small : n ≤ Counter.ceiling) : int128? n = some (n : Int) := by
  have ceiling : Counter.ceiling < Nat.pow 2 128 := by decide
  -- The bounds stay closed, since what they come to is not needed.
  unfold int128?
  generalize Nat.pow 2 127 = least
  generalize Nat.pow 2 128 = limit at ceiling ⊢
  exact if_pos (by omega)

theorem integer?_toDigits (small : n ≤ Counter.ceiling) :
    integer? (Nat.toDigits 10 n) = some (n : Int) := by
  rw [integer?_of_digits fun _ => isDigit_of_mem, decimal?_toDigits, Option.map_some,
    Option.bind_eq_bind, Option.bind_some, Int.ofNat_eq_natCast, int128?_of_le small]

theorem ofPlain?_toDigits (small : n ≤ Counter.ceiling) :
    ofPlain? (Nat.toDigits 10 n) = some (.int n) := by
  have apart {c : Char} (other : c.isDigit = false) (cs : List Char) :
      Nat.toDigits 10 n ≠ c :: cs := fun word =>
    Bool.false_ne_true (other.symm.trans (isDigit_of_mem (n := n) (word ▸ List.mem_cons_self)))
  rw [ofPlain?, if_neg (apart (by decide) _), if_neg (apart (by decide) _),
    integer?_toDigits small]

theorem plain?_number (small : n ≤ Counter.ceiling) (rest : List Char) :
    plain? (Nat.toDigits 10 n ++ '\n' :: rest) = some (.int n, '\n' :: rest) := by
  have plain (c : Char) (mem : c ∈ Nat.toDigits 10 n) : isPlain c = true := by
    simp [isPlain, Char.isAlphanum, isDigit_of_mem mem]
  have run : (Nat.toDigits 10 n ++ '\n' :: rest).takeWhile isPlain = Nat.toDigits 10 n := by
    rw [List.takeWhile_append_of_pos plain]
    exact List.append_nil _
  have left : (Nat.toDigits 10 n ++ '\n' :: rest).dropWhile isPlain = '\n' :: rest := by
    rw [List.dropWhile_append_of_pos plain]
    rfl
  have both : plainText (Nat.toDigits 10 n ++ '\n' :: rest) =
      (Nat.toDigits 10 n, '\n' :: rest) := by
    rw [plainText, run, left]
    rfl
  rw [plain?, both]
  simp only
  rw [ofPlain?_toDigits small]
  rfl

/-- A whole number reads as it was written, up to the end of the line. -/
theorem value?_number (small : n ≤ Counter.ceiling) (depth : Nat) (rest : List Char) :
    value? depth (Nat.toDigits 10 n ++ '\n' :: rest) = some (.int n, '\n' :: rest) := by
  obtain ⟨d, ds, same⟩ := List.exists_cons_of_ne_nil (Nat.toDigits_ne_nil (n := n) (b := 10))
  have digit : d.isDigit = true := isDigit_of_mem (n := n) (same ▸ List.mem_cons_self)
  rw [← plain?_number small rest, same, List.cons_append]
  have apart {c : Char} (other : c.isDigit = false) (cs : List Char) :
      d :: (ds ++ '\n' :: rest) ≠ c :: cs := fun word =>
    Bool.false_ne_true (other.symm.trans ((List.cons.inj word).1 ▸ digit))
  have unquoted : text? (d :: (ds ++ '\n' :: rest)) = none :=
    text?.eq_5 _ (fun _ => apart (by decide) _) (fun _ => apart (by decide) _)
      (fun _ => apart (by decide) _) (fun _ => apart (by decide) _)
  unfold value?
  simp only
  rw [unquoted]
  simp only
  split
  case h_1 same => exact absurd same (apart (by decide) _)
  case h_2 same => exact absurd same (apart (by decide) _)
  case h_3 => rfl

/-- So does a text. -/
theorem value?_text (s : String) (depth : Nat) (rest : List Char) :
    value? depth (written s ++ '\n' :: rest) = some (.text s, '\n' :: rest) := by
  have read : text? (written s ++ '\n' :: rest) = some (s.toList, '\n' :: rest) :=
    text?_written s ⟨by simp, by simp⟩
  unfold value?
  simp only
  rw [read]
  simp only
  rw [String.ofList_toList]

/-! ## Keys and lines -/

/-- A key that may stand in a line as it is. -/
structure Bare (key : String) : Prop where
  nonempty : key.toList ≠ []
  plain : ∀ c ∈ key.toList, isBare c = true

/-- A character at which something other than a blank, a comment or a line break begins. -/
structure Begins (c : Char) : Prop where
  unblank : isBlank c = false
  uncommented : c ≠ '#'
  unbroken : c ≠ '\n' ∧ c ≠ '\r'

theorem dropBlanks_cons (unblank : isBlank c = false) (cs : List Char) :
    dropBlanks (c :: cs) = c :: cs :=
  List.dropWhile_cons_of_neg (by simp [unblank])

theorem dropSpace_cons (begins : Begins c) (cs : List Char) : dropSpace (c :: cs) = c :: cs := by
  have comment : dropComment (c :: cs) = c :: cs := by
    unfold dropComment
    split
    case h_1 same => exact absurd (List.cons.inj same).1 begins.uncommented
    case h_2 => rfl
  rw [dropSpace, dropBlanks_cons begins.unblank, comment, lineBreak?_cons begins.unbroken]

theorem dropSpace_break (cs : List Char) : dropSpace ('\n' :: cs) = dropSpace cs := by
  rw [dropSpace, dropBlanks_cons (by decide)]
  simp only [dropComment, lineBreak?]
  exact dif_pos (Nat.lt_succ_self _)

theorem endOfLine?_break (cs : List Char) : endOfLine? ('\n' :: cs) = some cs := by
  rw [endOfLine?, dropBlanks_cons (by decide)]
  rfl

theorem begins_of_isBare (bare : isBare c = true) : Begins c := by
  refine ⟨?_, ?_, ?_, ?_⟩
  · refine Bool.eq_false_iff.mpr fun blank => ?_
    obtain rfl | rfl : c = ' ' ∨ c = '\t' := by simpa [isBlank] using blank
    all_goals exact absurd bare (by decide)
  all_goals
    rintro rfl
    exact absurd bare (by decide)

/-- A bare key that ends before another character is the whole of a path. -/
theorem path?_bare (bare : Bare key) {c : Char} (ends : isBare c = false)
    (last : (dropBlanks (c :: rest)).head? ≠ some '.') :
    path? (key.toList ++ c :: rest) = some ([key], dropBlanks (c :: rest)) := by
  obtain ⟨k, ks, same⟩ := List.exists_cons_of_ne_nil bare.nonempty
  have first : isBare k = true := bare.plain k (same ▸ List.mem_cons_self)
  have unquoted : lineText? (key.toList ++ c :: rest) = none := by
    rw [same, List.cons_append]
    unfold lineText?
    split
    case h_1 quote =>
      rw [(List.cons.inj quote).1] at first
      exact absurd first (by decide)
    case h_2 quote =>
      rw [(List.cons.inj quote).1] at first
      exact absurd first (by decide)
    case h_3 => rfl
  have read : key? (key.toList ++ c :: rest) = some (key, c :: rest) := by
    rw [key?, unquoted]
    simp only
    rw [List.takeWhile_append_of_pos bare.plain, List.dropWhile_append_of_pos bare.plain,
      List.takeWhile_cons_of_neg (by simp [ends]), List.dropWhile_cons_of_neg (by simp [ends]),
      List.append_nil,
      if_neg (by simpa using bare.nonempty), String.ofList_toList]
  have unblank : dropBlanks (key.toList ++ c :: rest) = key.toList ++ c :: rest := by
    rw [same, List.cons_append]
    exact dropBlanks_cons (begins_of_isBare first).unblank _
  have keys : keys? (key.toList ++ c :: rest) = some ([key], dropBlanks (c :: rest)) := by
    rw [keys?, unblank, read]
    simp only
    split
    case h_1 next dot =>
      rw [dot] at last
      exact absurd rfl last
    case h_2 => rfl
  rw [path?, keys]
  rfl

theorem dropBlanks_blank (cs : List Char) : dropBlanks (' ' :: cs) = dropBlanks cs :=
  List.dropWhile_cons_of_pos rfl

/-- A line that gives a value to a bare key. -/
theorem statement?_assign (bare : Bare key) (unblank : ∀ c ∈ value.head?, isBlank c = false)
    (nonempty : value ≠ [])
    (reads : value? depthLimit (value ++ '\n' :: rest) = some (node, '\n' :: rest)) :
    statement? (key.toList ++ " = ".toList ++ (value ++ '\n' :: rest)) =
      some (.assign [key] node, rest) := by
  obtain ⟨k, ks, head⟩ := List.exists_cons_of_ne_nil bare.nonempty
  obtain ⟨v, vs, rfl⟩ := List.exists_cons_of_ne_nil nonempty
  have path : path? (key.toList ++ " = ".toList ++ (v :: vs ++ '\n' :: rest)) =
      some ([key], '=' :: ' ' :: (v :: vs ++ '\n' :: rest)) := by
    rw [List.append_assoc]
    exact path?_bare (c := ' ') bare (by decide) (show some '=' ≠ some '.' by decide)
  have skipped : dropBlanks (' ' :: (v :: vs ++ '\n' :: rest)) = v :: vs ++ '\n' :: rest := by
    rw [dropBlanks_blank, List.cons_append]
    exact dropBlanks_cons (unblank v rfl) _
  have assignment : assignment? dropBlanks (value? depthLimit)
      (key.toList ++ " = ".toList ++ (v :: vs ++ '\n' :: rest)) =
      some (([key], node), '\n' :: rest) := by
    simp only [assignment?, path, Option.bind_eq_bind, Option.bind_some,
      dropBlanks_cons (c := '=') rfl, mark?, if_true, skipped, reads]
    rfl
  have unopened : k ≠ '[' := by
    rintro rfl
    exact absurd (bare.plain '[' (head ▸ List.mem_cons_self)) (by decide)
  unfold statement?
  split
  case h_1 same =>
    rw [head] at same
    exact absurd (List.cons.inj same).1 unopened
  case h_2 same =>
    rw [head] at same
    exact absurd (List.cons.inj same).1 unopened
  case h_3 =>
    simp only [assignment, Option.bind_eq_bind, Option.bind_some, endOfLine?_break]
    rfl

/-- A line that opens a table with a bare name. -/
theorem statement?_header (bare : Bare key) (rest : List Char) :
    statement? ('[' :: (key.toList ++ ']' :: '\n' :: rest)) = some (.header [key] false, rest) := by
  obtain ⟨k, ks, head⟩ := List.exists_cons_of_ne_nil bare.nonempty
  have path : path? (key.toList ++ ']' :: '\n' :: rest) = some ([key], ']' :: '\n' :: rest) :=
    path?_bare bare (by decide) (show some ']' ≠ some '.' by decide)
  have unopened : k ≠ '[' := by
    rintro rfl
    exact absurd (bare.plain '[' (head ▸ List.mem_cons_self)) (by decide)
  unfold statement?
  split
  case h_1 same =>
    rw [head] at same
    exact absurd (List.cons.inj (List.cons.inj same).2).1 unopened
  case h_2 same =>
    rw [← (List.cons.inj same).2]
    simp only [path, Option.bind_eq_bind, Option.bind_some, dropBlanks_cons (c := ']') rfl, mark?,
      if_true, endOfLine?_break]
    rfl
  case h_3 other => exact absurd rfl (other _)

/-- The statement on the first line comes first. -/
theorem statements?_cons {statement : Statement} (starts : dropSpace cs = c :: ds)
    (reads : statement? (c :: ds) = some (statement, next)) (shorter : next.length < cs.length) :
    statements? cs = (statements? next).map (statement :: ·) := by
  rw [statements?, starts]
  simp only
  rw [reads]
  exact dif_pos shorter

theorem statements?_assign (bare : Bare key) (unblank : ∀ c ∈ value.head?, isBlank c = false)
    (nonempty : value ≠ [])
    (reads : value? depthLimit (value ++ '\n' :: rest) = some (node, '\n' :: rest)) :
    statements? (key.toList ++ " = ".toList ++ (value ++ '\n' :: rest)) =
      (statements? rest).map (.assign [key] node :: ·) := by
  have read := statement?_assign bare unblank nonempty reads
  obtain ⟨k, ks, head⟩ := List.exists_cons_of_ne_nil bare.nonempty
  have begins : Begins k := begins_of_isBare (bare.plain k (head ▸ List.mem_cons_self))
  rw [head] at read ⊢
  refine statements?_cons (dropSpace_cons begins _) read ?_
  simp only [List.length_append, List.length_cons]
  omega

theorem statements?_header (bare : Bare key) (rest : List Char) :
    statements? ('\n' :: '[' :: (key.toList ++ ']' :: '\n' :: rest)) =
      (statements? rest).map (.header [key] false :: ·) := by
  have begins : Begins '[' := ⟨by decide, by decide, by decide⟩
  refine statements?_cons ((dropSpace_break _).trans (dropSpace_cons begins _))
    (statement?_header bare rest) ?_
  simp only [List.length_append, List.length_cons]
  omega

theorem statements?_nil : statements? [] = some [] := by
  rw [statements?, dropSpace]
  rfl

end Steward.Toml
