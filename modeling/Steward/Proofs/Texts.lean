import Steward.Toml.Text

/-!
# Texts in TOML come back as they were written

Whatever the characters of a text are, what is written for it reads as that text again, up to the
place where it ends.  In a basic text every character stands for itself or is escaped, and each
escape names the character.  A text over several lines ends with three quotes, so quotes of its own
must not come to three in a row before another character does; up to two of them may stand right
before the end.  A literal text knows no escape, and is chosen only when none is needed.
-/

namespace Steward.Toml

variable {c q : Char} {cs ds rest : List Char}

/-! ## Escapes -/

/-- Four hexadecimal digits name every character that has to be escaped wherever it stands. -/
theorem digitsValue?_hexDigits :
    ∀ n < 128, n < 32 ∨ n = 127 →
      (hexDigits 4 n).length = 4 ∧ digitsValue? 16 (hexDigits 4 n) = some n := by
  decide +kernel

theorem codePoint?_append (value : digitsValue? 16 ds = some c.toNat) (rest : List Char) :
    codePoint? ds.length (ds ++ rest) = some (c, rest) := by
  have valid : c.toNat.isValidChar := c.valid
  simp [codePoint?, value, char?, valid]

theorem toNat_of_isControl (control : isControl c = true) : c.toNat < 32 ∨ c.toNat = 127 := by
  simp only [isControl, Bool.and_eq_true, Bool.or_eq_true, decide_eq_true_eq, beq_iff_eq] at control
  exact control.1.1

/-- A character that is escaped is named after a backslash, by a letter that cannot be taken for the
end of a line. -/
structure Escapes (c mark : Char) (letters : List Char) : Prop where
  unblank : isBlank mark = false
  unbroken : mark ≠ '\n' ∧ mark ≠ '\r'
  names : ∀ rest, escape? (mark :: (letters ++ rest)) = some (c, rest)

/-- A character of a basic text stands for itself or is escaped. -/
theorem escaped_cases (c : Char) :
    (escaped c = [c] ∧ c ≠ '"' ∧ c ≠ '\\' ∧ isInline c = true) ∨
      ∃ mark letters, escaped c = '\\' :: mark :: letters ∧ Escapes c mark letters := by
  unfold escaped
  split
  case h_8 unbroken _ _ quote backslash =>
    split
    case isTrue control =>
      have small := toNat_of_isControl control
      obtain ⟨length, value⟩ := digitsValue?_hexDigits c.toNat (by omega) small
      refine .inr ⟨_, _, rfl, by decide, by decide, fun rest => ?_⟩
      have named := codePoint?_append value rest
      rw [length] at named
      exact named
    case isFalse plain =>
      refine .inl ⟨rfl, quote, backslash, ?_⟩
      rw [isInline, Bool.eq_false_iff.mpr plain]
      simpa using unbroken
  all_goals exact .inr ⟨_, [], rfl, by decide, by decide, fun rest => rfl⟩

/-! ## Texts on one line -/

theorem basic?_cons_escaped (c : Char) (cs : List Char) :
    basic? (escaped c ++ cs) = (basic? cs).map fun (ds, rest) => (c :: ds, rest) := by
  obtain ⟨same, quote, backslash, inline⟩ | ⟨mark, letters, same, escapes⟩ := escaped_cases c
  · rw [same, List.singleton_append, basic?, if_neg quote, if_neg backslash, if_pos inline]
  · rw [same, List.cons_append, List.cons_append, basic?, if_neg (by decide), if_pos rfl,
      escapes.names]
    simp only
    rw [dif_pos]
    rw [List.length_cons, List.length_append]
    omega

theorem basic?_flatMap_escaped (cs rest : List Char) :
    basic? (cs.flatMap escaped ++ '"' :: rest) = some (cs, rest) := by
  induction cs with
  | nil => rw [List.flatMap_nil, List.nil_append, basic?, if_pos rfl]
  | cons c cs ih => rw [List.flatMap_cons, List.append_assoc, basic?_cons_escaped, ih]; rfl

theorem literal?_append (plain : ∀ c ∈ cs, isInline c = true ∧ c ≠ '\'') (rest : List Char) :
    literal? (cs ++ '\'' :: rest) = some (cs, rest) := by
  induction cs with
  | nil => rw [List.nil_append, literal?, if_pos rfl]
  | cons c cs ih =>
      obtain ⟨⟨inline, quote⟩, plain⟩ := List.forall_mem_cons.mp plain
      rw [List.cons_append, literal?, if_neg quote, if_pos inline, ih plain]
      rfl

/-! ## The end of a text over several lines -/

/-- How many quotes a text starts with. -/
def lead (q : Char) (cs : List Char) : Nat := (cs.takeWhile (· == q)).length

theorem lead_cons_self (q : Char) (cs : List Char) : lead q (q :: cs) = lead q cs + 1 := by
  simp [lead]

theorem lead_cons_ne (other : c ≠ q) (cs : List Char) : lead q (c :: cs) = 0 := by
  simp [lead, other]

theorem closing?_eq (q : Char) (cs : List Char) :
    closing? q cs =
      if 3 ≤ min 5 (lead q cs) then
        some (List.replicate (min 5 (lead q cs) - 3) q, cs.drop (min 5 (lead q cs)))
      else none := by
  rw [closing?, ← List.take_takeWhile, List.length_take, lead]

theorem closing?_cons_ne (other : c ≠ q) (cs : List Char) : closing? q (c :: cs) = none := by
  rw [closing?_eq, lead_cons_ne other, if_neg (by decide)]

/-- Where `run` quotes came just before, either a character other than the quote comes in time, or
the end does. -/
def Spaced (q : Char) (run : Nat) (cs : List Char) : Prop :=
  run + lead q cs ≤ 2 ∨ 3 ≤ lead q cs ∧ run + lead q cs ≤ 5

theorem spaced_cons_ne {run : Nat} (few : run ≤ 2) (other : c ≠ q) (cs : List Char) :
    Spaced q run (c :: cs) := by
  refine .inl ?_
  rw [lead_cons_ne other]
  exact few

theorem Spaced.cons_self {run : Nat} (spaced : Spaced q (run + 1) cs) :
    Spaced q run (q :: cs) := by
  rw [Spaced, lead_cons_self]
  unfold Spaced at spaced
  omega

theorem Spaced.mono {run less : Nat} (spaced : Spaced q run cs) (le : less ≤ run) :
    Spaced q less cs := by
  unfold Spaced at spaced ⊢
  omega

/-- Three quotes end a text, before a character other than the quote. -/
theorem lead_end (follows : rest.head? ≠ some q) : lead q (q :: q :: q :: rest) = 3 := by
  rw [lead_cons_self, lead_cons_self, lead_cons_self]
  cases rest with
  | nil => rfl
  | cons c rest => rw [lead_cons_ne fun same => follows (congrArg some same)]

theorem spaced_end {run : Nat} (few : run ≤ 2) (follows : rest.head? ≠ some q) :
    Spaced q run (q :: q :: q :: rest) := by
  rw [Spaced, lead_end follows]
  omega

theorem closing?_end (follows : rest.head? ≠ some q) :
    closing? q (q :: q :: q :: rest) = some ([], rest) := by
  rw [closing?_eq, lead_end follows]
  rfl

/-- A quote that came before belongs to the text, whether or not the text ends with the quotes that
follow. -/
theorem closing?_cons_self (spaced : Spaced q 1 cs) :
    closing? q (q :: cs) = (closing? q cs).map fun (ds, rest) => (q :: ds, rest) := by
  rw [closing?_eq, closing?_eq, lead_cons_self]
  unfold Spaced at spaced
  -- At most five quotes are looked at, and with the one in front there are still no more.
  by_cases ends : 3 ≤ min 5 (lead q cs)
  · have count : min 5 (lead q cs + 1) = min 5 (lead q cs) + 1 := by omega
    rw [if_pos ends, if_pos (by omega), count, Nat.sub_add_comm ends, List.replicate_succ,
      List.drop_succ_cons]
    rfl
  · rw [if_neg ends, if_neg (by omega)]
    rfl

/-! ## Basic texts over several lines -/

theorem basicLines?_of_closing? {found : List Char × List Char}
    (ends : closing? '"' cs = some found) : basicLines? cs = some found := by
  rw [basicLines?.eq_def, ends]

theorem lineBreak?_cons (unbroken : c ≠ '\n' ∧ c ≠ '\r') (cs : List Char) :
    lineBreak? (c :: cs) = none := by
  unfold lineBreak?
  split
  case h_1 same => exact absurd (List.cons.inj same).1 unbroken.1
  case h_2 same => exact absurd (List.cons.inj same).1 unbroken.2
  case h_3 => rfl

theorem lineBreak?_cons_of_isInline (inline : isInline c = true) (cs : List Char) :
    lineBreak? (c :: cs) = none := by
  refine lineBreak?_cons ⟨?_, ?_⟩ cs
  all_goals
    rintro rfl
    exact absurd inline (by decide)

theorem basicLines?_cons_inline (backslash : c ≠ '\\') (inline : isInline c = true)
    (goesOn : closing? '"' (c :: cs) = none) :
    basicLines? (c :: cs) = (basicLines? cs).map fun (ds, rest) => (c :: ds, rest) := by
  rw [basicLines?, goesOn]
  simp only
  rw [if_neg backslash, lineBreak?_cons_of_isInline inline]
  simp only
  rw [if_pos inline]

theorem basicLines?_cons_quote (spaced : Spaced '"' 1 cs) :
    basicLines? ('"' :: cs) = (basicLines? cs).map fun (ds, rest) => ('"' :: ds, rest) := by
  have same := closing?_cons_self spaced
  cases ends : closing? '"' cs with
  | some found =>
      rw [ends] at same
      rw [basicLines?_of_closing? same, basicLines?_of_closing? ends]
      rfl
  | none =>
      rw [ends] at same
      exact basicLines?_cons_inline (by decide) (by decide) same

theorem basicLines?_cons_break (cs : List Char) :
    basicLines? ('\n' :: cs) = (basicLines? cs).map fun (ds, rest) => ('\n' :: ds, rest) := by
  rw [basicLines?, closing?_cons_ne (by decide)]
  simp only
  rw [if_neg (by decide), lineBreak?]
  simp only
  rw [dif_pos (Nat.le_refl _)]
  rfl

theorem basicLines?_cons_escaped (c : Char) (cs : List Char) :
    basicLines? (escaped c ++ cs) = (basicLines? cs).map fun (ds, rest) => (c :: ds, rest) := by
  obtain ⟨same, quote, backslash, inline⟩ | ⟨mark, letters, same, escapes⟩ := escaped_cases c
  · rw [same, List.singleton_append]
    exact basicLines?_cons_inline backslash inline (closing?_cons_ne quote cs)
  · have unbroken : lineBreak? ((mark :: (letters ++ cs)).dropWhile isBlank) = none := by
      rw [List.dropWhile_cons_of_neg (by simp [escapes.unblank])]
      exact lineBreak?_cons escapes.unbroken _
    rw [same, List.cons_append, List.cons_append, basicLines?, closing?_cons_ne (by decide)]
    simp only
    rw [if_pos trivial, unbroken]
    simp only
    rw [escapes.names]
    simp only
    rw [dif_pos]
    rw [List.length_cons, List.length_append]
    omega

theorem escaped_head (c : Char) (cs : List Char) : ∃ d ds, escaped c ++ cs = d :: ds ∧ d ≠ '"' := by
  obtain ⟨same, quote, _⟩ | ⟨mark, letters, same, _⟩ := escaped_cases c
  · exact ⟨c, cs, by rw [same, List.singleton_append], quote⟩
  · exact ⟨'\\', mark :: letters ++ cs, by rw [same]; rfl, by decide⟩

/-- The inside of a basic text over several lines has no three quotes in a row. -/
theorem spaced_escapedLines {run : Nat} (few : run ≤ 2) (follows : rest.head? ≠ some '"')
    (cs : List Char) : Spaced '"' run (escapedLines run cs ++ '"' :: '"' :: '"' :: rest) := by
  induction cs generalizing run with
  | nil => exact spaced_end few follows
  | cons c cs ih =>
      rw [escapedLines]
      split
      · split
        case isTrue room => exact (ih room).cons_self
        case isFalse => exact spaced_cons_ne few (by decide) _
      split
      · exact spaced_cons_ne few (by decide) _
      · obtain ⟨d, ds, same, quote⟩ :=
          escaped_head c (escapedLines 0 cs ++ '"' :: '"' :: '"' :: rest)
        rw [List.append_assoc, same]
        exact spaced_cons_ne few quote _

theorem basicLines?_escapedLines {run : Nat} (few : run ≤ 2) (follows : rest.head? ≠ some '"')
    (cs : List Char) :
    basicLines? (escapedLines run cs ++ '"' :: '"' :: '"' :: rest) = some (cs, rest) := by
  induction cs generalizing run with
  | nil => exact basicLines?_of_closing? (closing?_end follows)
  | cons c cs ih =>
      rw [escapedLines]
      split
      case isTrue quote =>
        rw [quote]
        split
        case isTrue room =>
          have spaced := (spaced_escapedLines room follows cs).mono (Nat.succ_le_succ run.zero_le)
          rw [List.cons_append, basicLines?_cons_quote spaced, ih room]
          rfl
        case isFalse =>
          change basicLines? (escaped '"' ++ (escapedLines 0 cs ++ _)) = _
          rw [basicLines?_cons_escaped, ih (Nat.zero_le 2)]
          rfl
      split
      case isTrue newline =>
        rw [newline, List.cons_append, basicLines?_cons_break, ih (Nat.zero_le 2)]
        rfl
      case isFalse =>
        rw [List.append_assoc, basicLines?_cons_escaped, ih (Nat.zero_le 2)]
        rfl

/-! ## Literal texts over several lines -/

theorem literalLines?_of_closing? {found : List Char × List Char}
    (ends : closing? '\'' cs = some found) : literalLines? cs = some found := by
  rw [literalLines?.eq_def, ends]

/-- A character goes into the text, where the text does not end here. -/
theorem literalLines?_cons (plain : isControl c = false) (goesOn : closing? '\'' (c :: cs) = none) :
    literalLines? (c :: cs) = (literalLines? cs).map fun (ds, rest) => (c :: ds, rest) := by
  rw [literalLines?, goesOn]
  simp only
  by_cases newline : c = '\n'
  · rw [newline, lineBreak?]
    simp only
    rw [dif_pos (Nat.le_refl _)]
    rfl
  · have inline : isInline c = true := by
      rw [isInline, plain]
      simpa using newline
    rw [lineBreak?_cons_of_isInline inline]
    simp only
    rw [if_pos inline]

theorem literalLines?_cons_quote (spaced : Spaced '\'' 1 cs) :
    literalLines? ('\'' :: cs) = (literalLines? cs).map fun (ds, rest) => ('\'' :: ds, rest) := by
  have same := closing?_cons_self spaced
  cases ends : closing? '\'' cs with
  | some found =>
      rw [ends] at same
      rw [literalLines?_of_closing? same, literalLines?_of_closing? ends]
      rfl
  | none =>
      rw [ends] at same
      exact literalLines?_cons (by decide) same

/-- No three of a character come in a row, where `run` of them came just before. -/
def Sparse (q : Char) (run : Nat) : List Char → Prop
  | [] => run ≤ 2
  | c :: cs => run ≤ 2 ∧ Sparse q (if c = q then run + 1 else 0) cs

theorem Sparse.few {run : Nat} (sparse : Sparse q run cs) : run ≤ 2 := by
  cases cs with
  | nil => exact sparse
  | cons c cs => exact sparse.1

theorem sparse_of_longestRun_go {longest current : Nat}
    (few : longestRun.go q longest current cs ≤ 2) : longest ≤ 2 ∧ Sparse q current cs := by
  induction cs generalizing longest current with
  | nil => exact Nat.max_le.mp few
  | cons c cs ih =>
      rw [longestRun.go] at few
      split at few
      case isTrue same =>
        obtain ⟨longest, sparse⟩ := ih few
        exact ⟨longest, Nat.le_of_succ_le sparse.few, by rwa [if_pos same]⟩
      case isFalse other =>
        obtain ⟨most, sparse⟩ := ih few
        obtain ⟨longest, current⟩ := Nat.max_le.mp most
        exact ⟨longest, current, by rwa [if_neg other]⟩

theorem Sparse.spaced {run : Nat} (sparse : Sparse q run cs) (follows : rest.head? ≠ some q) :
    Spaced q run (cs ++ q :: q :: q :: rest) := by
  induction cs generalizing run with
  | nil => exact spaced_end sparse follows
  | cons c cs ih =>
      obtain ⟨few, sparse⟩ := sparse
      by_cases same : c = q
      · rw [if_pos same] at sparse
        rw [same]
        exact (ih sparse).cons_self
      · exact spaced_cons_ne few same _

theorem literalLines?_append {run : Nat} (plain : ∀ c ∈ cs, isControl c = false)
    (sparse : Sparse '\'' run cs) (follows : rest.head? ≠ some '\'') :
    literalLines? (cs ++ '\'' :: '\'' :: '\'' :: rest) = some (cs, rest) := by
  induction cs generalizing run with
  | nil => exact literalLines?_of_closing? (closing?_end follows)
  | cons c cs ih =>
      obtain ⟨plain, plains⟩ := List.forall_mem_cons.mp plain
      obtain ⟨_, sparse⟩ := sparse
      by_cases quote : c = '\''
      · rw [if_pos quote] at sparse
        have spaced := (sparse.spaced follows).mono (Nat.succ_le_succ run.zero_le)
        rw [quote, List.cons_append, literalLines?_cons_quote spaced, ih plains sparse]
        rfl
      · rw [List.cons_append, literalLines?_cons plain (closing?_cons_ne quote _), ih plains sparse]
        rfl

/-! ## Texts in any style -/

/-- A style can carry a text: the basic ones can carry any. -/
def Style.Fits (cs : List Char) : Style → Prop
  | .basic | .basicLines => True
  | .literal => cs ≠ [] ∧ ∀ c ∈ cs, isInline c = true ∧ c ≠ '\''
  | .literalLines => (∀ c ∈ cs, isControl c = false) ∧ Sparse '\'' 0 cs

theorem isInline_of (plain : isControl c = false) (unbroken : c ≠ '\n') : isInline c = true := by
  rw [isInline, plain]
  simpa using unbroken

/-- The style that is chosen for a text can carry it. -/
theorem Style.choose_fits (cs : List Char) : (Style.choose cs).Fits cs := by
  unfold choose
  -- Only texts without control characters come to be written literally.
  refine iteInduction (fun _ => iteInduction (fun _ => trivial) fun _ => trivial) fun plain => ?_
  have plain : ∀ c ∈ cs, isControl c = false := by simpa using plain
  refine iteInduction (fun _ => trivial) fun needs => ?_
  refine iteInduction (fun free => ?_) fun _ => ?_
  · simp only [Bool.and_eq_true, Bool.not_eq_true', List.contains_eq_mem,
      decide_eq_false_iff_not] at free
    refine ⟨?_, fun c mem => ⟨isInline_of (plain c mem) ?_, ?_⟩⟩
    · rintro rfl
      exact needs rfl
    · exact fun newline => free.2 (newline ▸ mem)
    · exact fun quote => free.1 (quote ▸ mem)
  refine iteInduction (fun _ => trivial) fun _ => ?_
  refine iteInduction (fun few => ⟨plain, sparse_of_longestRun_go few |>.2⟩) fun _ => ?_
  exact iteInduction (fun _ => trivial) fun _ => trivial

theorem text?_basic (cs : List Char) (follows : rest.head? ≠ some '"') :
    text? ('"' :: (cs.flatMap escaped ++ '"' :: rest)) = some (cs, rest) := by
  rw [text?.eq_3, basic?_flatMap_escaped]
  intro others same
  cases cs with
  | nil =>
      cases same
      exact follows rfl
  | cons c cs =>
      rw [List.flatMap_cons, List.append_assoc] at same
      obtain ⟨d, ds, head, quote⟩ := escaped_head c (cs.flatMap escaped ++ '"' :: rest)
      rw [head] at same
      exact quote (List.cons.inj same).1

theorem text?_literal (nonempty : cs ≠ []) (plain : ∀ c ∈ cs, isInline c = true ∧ c ≠ '\'')
    (rest : List Char) : text? ('\'' :: (cs ++ '\'' :: rest)) = some (cs, rest) := by
  rw [text?.eq_4, literal?_append plain]
  intro others same
  obtain ⟨c, cs, rfl⟩ := List.exists_cons_of_ne_nil nonempty
  exact (plain c List.mem_cons_self).2 (List.cons.inj same).1

/-- The line break that a text over several lines starts with is dropped, if it has one. -/
theorem dropLineBreak_start (lines : Bool) {inside : List Char}
    (unbroken : lines = false → lineBreak? inside = none) :
    dropLineBreak ((if lines then ['\n'] else []) ++ inside) = inside := by
  cases lines with
  | true => rfl
  | false =>
      change dropLineBreak inside = inside
      rw [dropLineBreak, unbroken rfl]
      rfl

theorem lineBreak?_escapedLines (unbroken : '\n' ∉ cs) (rest : List Char) :
    lineBreak? (escapedLines 0 cs ++ '"' :: rest) = none := by
  cases cs with
  | nil => rfl
  | cons c cs =>
      rw [escapedLines]
      split
      · rfl
      split
      case isTrue newline => exact absurd (newline ▸ List.mem_cons_self) unbroken
      · obtain ⟨same, _, _, inline⟩ | ⟨mark, letters, same, _⟩ := escaped_cases c
        · rw [same]
          exact lineBreak?_cons_of_isInline inline _
        · rw [same]
          rfl

theorem lineBreak?_literalLines (plain : ∀ c ∈ cs, isControl c = false) (unbroken : '\n' ∉ cs)
    (rest : List Char) : lineBreak? (cs ++ '\'' :: rest) = none := by
  cases cs with
  | nil => rfl
  | cons c cs =>
      refine lineBreak?_cons_of_isInline (isInline_of (plain c List.mem_cons_self) ?_) _
      rintro rfl
      exact unbroken List.mem_cons_self

/-- A text reads as it was written, in any style that can carry it, where no quote follows. -/
theorem text?_writtenAs {style : Style} (fits : style.Fits cs)
    (follows : rest.head? ≠ some '"' ∧ rest.head? ≠ some '\'') :
    text? (writtenAs style cs ++ rest) = some (cs, rest) := by
  cases style with
  | basic =>
      rw [writtenAs, List.append_assoc]
      exact text?_basic cs follows.1
  | literal =>
      rw [writtenAs, List.append_assoc]
      exact text?_literal fits.1 fits.2 rest
  | basicLines =>
      simp only [writtenAs, List.append_assoc, List.cons_append, List.nil_append]
      rw [text?, dropLineBreak_start, basicLines?_escapedLines (Nat.zero_le 2) follows.1]
      exact fun unbroken => lineBreak?_escapedLines (by simpa using unbroken) _
  | literalLines =>
      simp only [writtenAs, List.append_assoc, List.cons_append, List.nil_append]
      rw [text?, dropLineBreak_start, literalLines?_append fits.1 fits.2 follows.2]
      exact fun unbroken => lineBreak?_literalLines fits.1 (by simpa using unbroken) _

/-- Every text reads as it was written. -/
theorem text?_written (s : String) (follows : rest.head? ≠ some '"' ∧ rest.head? ≠ some '\'') :
    text? (written s ++ rest) = some (s.toList, rest) :=
  text?_writtenAs (Style.choose_fits s.toList) follows

theorem written_head (s : String) : ∃ q qs, written s = q :: qs ∧ isBlank q = false := by
  rw [written]
  cases Style.choose s.toList with
  | basic | literal | basicLines | literalLines => exact ⟨_, _, rfl, by decide⟩

end Steward.Toml
