import Steward.Proofs.Lines
import Steward.Settings

/-!
# Settings that are accepted come back from their text

Settings are accepted when no interval is zero, the annotation has a base name and there is a
worker.  The text of settings is a line for the base name and one section for each other part.  If
every number is a word of 64 bits, as it is when the settings were read, then reading the text gives
the settings back, whatever characters the base name is made of.
-/

namespace Steward

/-! ## What is checked -/

namespace Intervals

variable {i : Intervals}

/-- No interval is zero. -/
structure Positive (i : Intervals) : Prop where
  requeueAfter : 0 < i.requeueAfter
  requeueAfterSuccess : 0 < i.requeueAfterSuccess
  requeueAfterFailure : 0 < i.requeueAfterFailure
  operationTimeout : 0 < i.operationTimeout

/-- The check passes just those intervals none of which is zero. -/
theorem validate_eq_ok_iff {j : Intervals} : i.validate = .ok j ↔ j = i ∧ i.Positive := by
  have fields : (i.fields.find? fun field => field.2 == 0) = none ↔ i.Positive := by
    simp only [Intervals.fields, fieldNames, List.zip_cons_cons, List.zip_nil_right,
      List.find?_eq_none, List.forall_mem_cons, beq_iff_eq, List.not_mem_nil, false_implies,
      implies_true, and_true, ← ne_eq, ← Nat.pos_iff_ne_zero]
    constructor
    · rintro ⟨requeueAfter, success, failure, timeout⟩
      exact ⟨requeueAfter, success, failure, timeout⟩
    · rintro ⟨requeueAfter, success, failure, timeout⟩
      exact ⟨requeueAfter, success, failure, timeout⟩
  rw [validate, ← fields]
  cases zero : i.fields.find? fun field => field.2 == 0 with
  | none => simp [eq_comm]
  | some field => simp

end Intervals

namespace Settings

variable {s t : Settings} {text : String}

/-- What the check of settings asks for. -/
structure Valid (s : Settings) : Prop where
  intervals : s.intervals.Positive
  annotationBase : s.annotationBase ≠ ""
  workers : 0 < s.loop.workers

theorem validate_eq_ok_iff : s.validate = .ok t ↔ t = s ∧ s.Valid := by
  by_cases positive : s.intervals.Positive
  · have passed : s.intervals.validate = .ok s.intervals :=
      Intervals.validate_eq_ok_iff.mpr ⟨rfl, positive⟩
    rw [validate, passed]
    by_cases base : s.annotationBase = ""
    · exact iff_of_false (by simp [base]) fun valid => valid.2.annotationBase base
    by_cases workers : s.loop.workers = 0
    · exact iff_of_false (by simp [base, workers]) fun valid => Nat.ne_of_gt valid.2.workers workers
    simp only [if_neg base, if_neg workers, Except.ok.injEq]
    exact ⟨fun same => ⟨same.symm, positive, base, Nat.pos_of_ne_zero workers⟩, fun h => h.1.symm⟩
  · refine iff_of_false (fun passes => positive ?_) fun valid => positive valid.2.intervals
    cases checked : s.intervals.validate with
    | error fault => simp [validate, checked] at passes
    | ok i => exact (Intervals.validate_eq_ok_iff.mp checked).2

/-- Settings that were read from a document are valid. -/
theorem valid_of_ofToml (accepted : ofToml text = .ok s) : s.Valid := by
  rw [ofToml] at accepted
  split at accepted
  · cases accepted
  · obtain ⟨rfl, valid⟩ := validate_eq_ok_iff.mp accepted
    exact valid

theorem ofToml_eq_ok (accepted : (ofToml text).toOption = some s) : ofToml text = .ok s := by
  cases read : ofToml text with
  | error e =>
      rw [read] at accepted
      cases accepted
  | ok t =>
      rw [read] at accepted
      exact congrArg Except.ok (Option.some.inj accepted)

end Settings

/-! ## Words of 64 bits -/

structure Intervals.Bounded (i : Intervals) : Prop where
  requeueAfter : i.requeueAfter ≤ Counter.ceiling
  requeueAfterSuccess : i.requeueAfterSuccess ≤ Counter.ceiling
  requeueAfterFailure : i.requeueAfterFailure ≤ Counter.ceiling
  operationTimeout : i.operationTimeout ≤ Counter.ceiling

structure LoopSettings.Bounded (settings : LoopSettings) : Prop where
  workers : settings.workers ≤ Counter.ceiling
  backoffBase : settings.backoffBase ≤ Counter.ceiling
  backoffMax : settings.backoffMax ≤ Counter.ceiling

/-- Every number of the settings is a word of 64 bits. -/
structure Settings.Bounded (s : Settings) : Prop where
  intervals : s.intervals.Bounded
  loop : s.loop.Bounded
  completionDelay : s.completionDelay ≤ Counter.ceiling

section

theorem Source.orElse_some {δ α : Type} (default : α) (read : δ → Option α) (d : δ) :
    Source.orElse default read (some d) = read d := rfl

/-- What holds of the default and of everything that is read holds of a field that may be left
out. -/
theorem Source.of_orElse {δ α : Type} {P : α → Prop} {default a : α} {read : δ → Option α}
    {field : Option δ}
    (holds : P default) (each : ∀ d a, read d = some a → P a)
    (content : Source.orElse default read field = some a) : P a := by
  cases field with
  | none =>
      cases content
      exact holds
  | some d => exact each d a content

variable {δ : Type} [Source δ] {d : δ}

/-- A format that has no larger whole numbers than words. -/
def Wordly (δ : Type) [Source δ] : Prop :=
  ∀ (d : δ) (n : Nat), Source.nat? d = some n → n ≤ Counter.ceiling

theorem Wordly.le_of_orElse (words : Wordly δ) {default n : Nat} {field : Option δ}
    (small : default ≤ Counter.ceiling)
    (content : Source.orElse default Source.nat? field = some n) : n ≤ Counter.ceiling :=
  Source.of_orElse (P := (· ≤ Counter.ceiling)) small words content

theorem Intervals.bounded_default : ({} : Intervals).Bounded :=
  ⟨by decide, by decide, by decide, by decide⟩

theorem LoopSettings.bounded_default : ({} : LoopSettings).Bounded :=
  ⟨by decide, by decide, by decide⟩

theorem Intervals.bounded_of_read? (words : Wordly δ) {i : Intervals}
    (content : Intervals.read? d = some i) : i.Bounded := by
  simp only [Intervals.read?, Option.bind_eq_bind, Option.bind_eq_some_iff, Option.pure_def,
    Option.some.injEq] at content
  obtain ⟨_, _, _, first, _, second, _, third, _, fourth, rfl⟩ := content
  exact ⟨words.le_of_orElse bounded_default.requeueAfter first,
    words.le_of_orElse bounded_default.requeueAfterSuccess second,
    words.le_of_orElse bounded_default.requeueAfterFailure third,
    words.le_of_orElse bounded_default.operationTimeout fourth⟩

theorem LoopSettings.bounded_of_read? (words : Wordly δ) {settings : LoopSettings}
    (content : LoopSettings.read? d = some settings) : settings.Bounded := by
  simp only [LoopSettings.read?, Option.bind_eq_bind, Option.bind_eq_some_iff, Option.pure_def,
    Option.some.injEq] at content
  obtain ⟨_, _, _, first, _, second, _, third, rfl⟩ := content
  exact ⟨words.le_of_orElse bounded_default.workers first,
    words.le_of_orElse bounded_default.backoffBase second,
    words.le_of_orElse bounded_default.backoffMax third⟩

theorem Settings.le_of_readDelay? (words : Wordly δ) {n : Nat}
    (content : Settings.readDelay? d = some n) : n ≤ Counter.ceiling := by
  simp only [Settings.readDelay?, Option.bind_eq_bind, Option.bind_eq_some_iff] at content
  obtain ⟨_, _, number⟩ := content
  exact words.le_of_orElse (by decide) number

/-- Settings that were read fit into words. -/
theorem Settings.bounded_of_read? (words : Wordly δ) {s : Settings}
    (content : Settings.read? d = some s) : s.Bounded := by
  simp only [Settings.read?, Option.bind_eq_bind, Option.bind_eq_some_iff, Option.pure_def,
    Option.some.injEq] at content
  obtain ⟨_, _, _, _, _, intervals, _, loop, _, delay, rfl⟩ := content
  exact
    { intervals := Source.of_orElse (P := Intervals.Bounded) Intervals.bounded_default
        (fun _ _ => Intervals.bounded_of_read? words) intervals
      loop := Source.of_orElse (P := LoopSettings.Bounded) LoopSettings.bounded_default
        (fun _ _ => LoopSettings.bounded_of_read? words) loop
      completionDelay := Source.of_orElse (P := (· ≤ Counter.ceiling)) (by decide)
        (fun _ _ => le_of_readDelay? words) delay }

end

theorem nat64?_eq_some {n : Int} {m : Nat} (word : nat64? n = some m) : m ≤ Counter.ceiling := by
  rw [nat64?] at word
  split at word
  case isTrue within =>
    cases word
    exact Int.toNat_le.mpr within.2
  case isFalse => cases word

theorem wordly_node : Wordly Toml.Node := by
  intro d n word
  cases d with
  | int => exact nat64?_eq_some word
  | _ => cases word

theorem wordly_value : Wordly Value := by
  intro d n word
  cases d with
  | int => exact nat64?_eq_some word
  | _ => cases word

theorem nat64?_natCast {n : Nat} (small : n ≤ Counter.ceiling) : nat64? n = some n := by
  rw [nat64?, if_pos ⟨Int.natCast_nonneg n, Int.ofNat_le.mpr small⟩, Int.toNat_natCast]

namespace Settings

open Toml

variable {s : Settings}

/-! ## The text of settings -/

/-- The statement that gives a number to a field. -/
def numberStatement (field : String × Nat) : Statement := .assign [field.1] (.int field.2)

/-- The statements of a section. -/
def sectionStatements (part : String × List (String × Nat)) : List Statement :=
  .header [part.1] false :: part.2.map numberStatement

/-- A field of a section reads as it was written. -/
structure Legible (field : String × Nat) : Prop where
  bare : Bare field.1
  small : field.2 ≤ Counter.ceiling

theorem statements?_numberLine {field : String × Nat} (legible : Legible field) (rest : List Char) :
    statements? (numberLine field ++ rest) =
      (statements? rest).map (numberStatement field :: ·) := by
  obtain ⟨key, n⟩ := field
  have line : numberLine (key, n) ++ rest =
      key.toList ++ " = ".toList ++ (Nat.toDigits 10 n ++ '\n' :: rest) := by
    simp only [numberLine, List.append_assoc, List.singleton_append]
  have unblank (c : Char) (mem : c ∈ (Nat.toDigits 10 n).head?) : isBlank c = false := by
    have digit := isDigit_of_mem (List.mem_of_mem_head? mem)
    refine (begins_of_isBare ?_).unblank
    rw [isBare, Char.isAlphanum, digit]
    simp
  rw [line]
  exact statements?_assign legible.bare unblank Nat.toDigits_ne_nil
    (value?_number legible.small depthLimit rest)

theorem statements?_numberLines {fields : List (String × Nat)}
    (legible : ∀ field ∈ fields, Legible field) (rest : List Char) :
    statements? (fields.flatMap numberLine ++ rest) =
      (statements? rest).map (fields.map numberStatement ++ ·) := by
  induction fields with
  | nil => exact Option.map_id'.symm
  | cons field fields ih =>
      obtain ⟨first, others⟩ := List.forall_mem_cons.mp legible
      rw [List.flatMap_cons, List.append_assoc, statements?_numberLine first, ih others,
        Option.map_map]
      rfl

theorem statements?_sectionText {part : String × List (String × Nat)} (bare : Bare part.1)
    (legible : ∀ field ∈ part.2, Legible field) (rest : List Char) :
    statements? (sectionText part ++ rest) =
      (statements? rest).map (sectionStatements part ++ ·) := by
  simp only [sectionText, List.cons_append, List.append_assoc]
  rw [statements?_header bare, statements?_numberLines legible, Option.map_map]
  rfl

theorem statements?_sections {parts : List (String × List (String × Nat))}
    (legible : ∀ part ∈ parts, Bare part.1 ∧ ∀ field ∈ part.2, Legible field) :
    statements? (parts.flatMap sectionText) = some (parts.flatMap sectionStatements) := by
  induction parts with
  | nil => exact statements?_nil
  | cons part parts ih =>
      obtain ⟨⟨bare, fields⟩, others⟩ := List.forall_mem_cons.mp legible
      rw [List.flatMap_cons, statements?_sectionText bare fields, ih others]
      rfl

/-- Every name that the text of settings has in it. -/
def names : List String :=
  "completion_delay" :: (fieldNames ++ Intervals.fieldNames ++ LoopSettings.fieldNames)

theorem bare_names : ∀ name ∈ names, Bare name := by
  have checked : ∀ name ∈ names, name.toList.isEmpty = false ∧ name.toList.all isBare = true := by
    decide +kernel
  intro name mem
  obtain ⟨filled, bare⟩ := checked name mem
  exact ⟨List.isEmpty_eq_false_iff.mp filled, List.all_eq_true.mp bare⟩

theorem intervals_legible (i : Intervals) : ∀ field ∈ i.written, Legible field := by
  intro field mem
  obtain ⟨⟨name, n⟩, listed, rfl⟩ := List.mem_map.mp mem
  refine ⟨bare_names name ?_, Counter.capped_le n⟩
  simp [names, (List.of_mem_zip listed).1]

theorem loop_legible (settings : LoopSettings) : ∀ field ∈ settings.written, Legible field := by
  rintro ⟨name, n⟩ mem
  obtain ⟨listed, number⟩ := List.of_mem_zip mem
  obtain ⟨m, _, rfl⟩ := List.mem_map.mp number
  refine ⟨bare_names name ?_, Counter.capped_le m⟩
  simp [names, listed]

theorem sections_legible (s : Settings) :
    ∀ part ∈ s.sections, Bare part.1 ∧ ∀ field ∈ part.2, Legible field := by
  have bare (name : String) (listed : name ∈ "completion_delay" :: fieldNames) : Bare name :=
    bare_names name (by
      rw [names, List.append_assoc, ← List.cons_append]
      exact List.mem_append_left _ listed)
  refine List.forall_mem_cons.mpr
    ⟨⟨bare "reconcile" (by decide), intervals_legible s.intervals⟩, ?_⟩
  refine List.forall_mem_cons.mpr ⟨⟨bare "loop" (by decide), loop_legible s.loop⟩, ?_⟩
  refine List.forall_mem_singleton.mpr ⟨bare "backend" (by decide), ?_⟩
  exact List.forall_mem_singleton.mpr ⟨bare "completion_delay" (by decide), Counter.capped_le _⟩

/-- The text of settings reads as a line for the base name and the sections. -/
theorem statements?_chars (s : Settings) :
    statements? s.chars =
      some (.assign ["annotation_base"] (.text s.annotationBase) ::
        s.sections.flatMap sectionStatements) := by
  obtain ⟨q, qs, head, unblank⟩ := written_head s.annotationBase
  have line : s.chars = "annotation_base".toList ++ " = ".toList ++
      (written s.annotationBase ++ '\n' :: s.sections.flatMap sectionText) := by
    have key : "annotation_base = ".toList = "annotation_base".toList ++ " = ".toList := by
      decide +kernel
    exact (List.append_assoc _ _ _).trans (congrArg (· ++ _) key)
  rw [line, statements?_assign (bare_names _ (by decide)) _ _
    (value?_text s.annotationBase depthLimit _), statements?_sections s.sections_legible]
  · rfl
  · rw [head]
    rintro c ⟨⟩
    exact unblank
  · rw [head]
    exact List.cons_ne_nil q qs

/-! ## What the text is read as -/

/-- A section as a table. -/
def table (fields : List (String × Nat)) : Node :=
  .table (fields.map fun field => (field.1, .int field.2))

/-- The document that the text of settings is. -/
def document (s : Settings) : Node :=
  .table <| ("annotation_base", .text s.annotationBase) ::
    s.sections.map fun part => (part.1, table part.2)

theorem ofText?_text (s : Settings) : Toml.ofText? s.text = some s.document := by
  have first : dropByteOrderMark s.chars = s.chars := rfl
  rw [Toml.ofText?, text, String.toList_ofList, first, statements?_chars]
  -- The statements are few and their names differ, so the entries come out by evaluation.
  simp [document, table, build?, sections, sectionStatements, numberStatement, Entries.within,
    Entries.assign, Entries.openAt, Entries.alter, Intervals.written, Intervals.fields,
    Intervals.fieldNames, LoopSettings.written, LoopSettings.fieldNames, toEntries, Tree.toNode]

theorem nat?_int {n : Nat} (small : n ≤ Counter.ceiling) :
    Source.nat? (Node.int (Counter.capped n : Nat)) = some n := by
  change nat64? (Counter.capped n : Nat) = some n
  rw [Counter.capped_of_le small, nat64?_natCast small]

-- A field is looked up before it is read: `Source.orElse` stays folded until then.
theorem read?_intervals (bounded : s.Bounded) :
    Intervals.read? (table s.intervals.written) = some s.intervals := by
  simp [table, Intervals.read?, Source.fields?, Node.fields?, Source.orElse_some,
    Intervals.written, Intervals.fields, Intervals.fieldNames, List.lookup_cons,
    nat?_int bounded.intervals.requeueAfter, nat?_int bounded.intervals.requeueAfterSuccess,
    nat?_int bounded.intervals.requeueAfterFailure, nat?_int bounded.intervals.operationTimeout]

theorem read?_loop (bounded : s.Bounded) :
    LoopSettings.read? (table s.loop.written) = some s.loop := by
  simp [table, LoopSettings.read?, Source.fields?, Node.fields?, Source.orElse_some,
    LoopSettings.written, LoopSettings.fieldNames, List.lookup_cons, nat?_int bounded.loop.workers,
    nat?_int bounded.loop.backoffBase, nat?_int bounded.loop.backoffMax]

theorem readDelay?_backend (bounded : s.Bounded) :
    readDelay? (table [("completion_delay", Counter.capped s.completionDelay)]) =
      some s.completionDelay := by
  simp [table, readDelay?, Source.fields?, Node.fields?, Source.orElse_some, List.lookup_cons,
    nat?_int bounded.completionDelay]

theorem read?_document (bounded : s.Bounded) : read? s.document = some s := by
  have base : Source.text? (Node.text s.annotationBase) = some s.annotationBase := rfl
  simp [document, read?, sections, Source.fields?, Node.fields?, Source.orElse_some,
    List.lookup_cons, base, read?_intervals bounded, read?_loop bounded, readDelay?_backend bounded]

/-- Valid settings whose numbers are words come back from their text. -/
theorem ofToml_text (valid : s.Valid) (bounded : s.Bounded) : ofToml s.text = .ok s := by
  rw [ofToml, ofText?_text, Option.bind_eq_bind, Option.bind_some, read?_document bounded]
  exact validate_eq_ok_iff.mpr ⟨rfl, valid⟩

/-- They do not otherwise. -/
theorem ofToml_text_iff (s : Settings) : ofToml s.text = .ok s ↔ s.Valid ∧ s.Bounded := by
  refine ⟨fun accepted => ⟨valid_of_ofToml accepted, ?_⟩, fun h => ofToml_text h.1 h.2⟩
  rw [ofToml, ofText?_text, Option.bind_eq_bind, Option.bind_some] at accepted
  split at accepted
  case h_1 => cases accepted
  case h_2 t read =>
    obtain ⟨rfl, _⟩ := validate_eq_ok_iff.mp accepted
    exact bounded_of_read? wordly_node read

/-- Settings that were read from TOML or from a structured value, and that pass the check, come back
from their text. -/
theorem ofToml_text_of_read
    (read : (∃ node : Node, read? node = some s) ∨ ∃ value : Value, read? value = some s)
    (accepted : s.validate = .ok s) : ofToml s.text = .ok s := by
  have valid := (validate_eq_ok_iff.mp accepted).2
  obtain ⟨node, read⟩ | ⟨value, read⟩ := read
  · exact ofToml_text valid (bounded_of_read? wordly_node read)
  · exact ofToml_text valid (bounded_of_read? wordly_value read)

/-- Settings with a base name that no style carries without escapes, and the largest intervals. -/
def awkwardSample : Settings where
  annotationBase := "\"\"\"\'\'\'\\\n\r\x00\x7f \t\u2028"
  intervals := { requeueAfter := Counter.ceiling, operationTimeout := Counter.ceiling }
  loop := { workers := Counter.ceiling, backoffBase := 0 }

theorem ofToml_text_of_awkwardSample :
    read? (Value.map [("annotation_base", .text awkwardSample.annotationBase),
      ("reconcile", .map [("requeue_after", .int Counter.ceiling),
        ("operation_timeout", .int Counter.ceiling)]),
      ("loop", .list [.int Counter.ceiling, .int 0])]) = some awkwardSample ∧
    awkwardSample.validate = .ok awkwardSample ∧
    ofToml awkwardSample.text = .ok awkwardSample := by
  have read : read? (Value.map [("annotation_base", .text awkwardSample.annotationBase),
      ("reconcile", .map [("requeue_after", .int Counter.ceiling),
        ("operation_timeout", .int Counter.ceiling)]),
      ("loop", .list [.int Counter.ceiling, .int 0])]) = some awkwardSample := by
    decide +kernel
  have accepted : awkwardSample.validate = .ok awkwardSample :=
    validate_eq_ok_iff.mpr ⟨rfl, ⟨by decide, by decide, by decide, by decide⟩, by decide +kernel,
      by decide⟩
  exact ⟨read, accepted, ofToml_text_of_read (.inr ⟨_, read⟩) accepted⟩

end Settings

end Steward
