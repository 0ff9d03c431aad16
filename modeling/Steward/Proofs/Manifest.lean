import Steward.Manifest
import Steward.Proofs.Traces
import Steward.Site

/-!
# Which manifests are accepted

A manifest is accepted when no two entries of a kind share both namespace and name; a plain and a
linked entry may.  Otherwise it is refused for the first plain entry whose key occurred before it,
and for the first such linked entry when the plain ones are distinct.  Keys are compared by their
parts: two keys that are written alike, because a part holds a slash, are different ones.  The
entries of an accepted manifest can be filed one after the other in stores without records, and no
key is ever taken.
-/

namespace Steward

variable {σ : Type}

namespace Entry

variable {entries : List (Entry σ)} {e f : Entry σ}

/-- Both entries declare the record of one key. -/
def Shares (e f : Entry σ) : Prop := e.key.ns = f.key.ns ∧ e.key.name = f.key.name

theorem shares_iff : e.Shares f ↔ e.key = f.key := by
  rw [Shares, Key.mk.injEq]

/-- No two of the entries declare the record of one key. -/
def Distinct (entries : List (Entry σ)) : Prop := entries.Pairwise fun e f => ¬ e.Shares f

theorem distinct_iff : Distinct entries ↔ (entries.map key).Nodup := by
  simp only [Distinct, List.Nodup, List.pairwise_map, shares_iff, ne_eq]

/-- The first entry, in the order of the list, that shares its key with an earlier one. -/
def FirstRepeat (entries : List (Entry σ)) (e : Entry σ) : Prop :=
  ∃ before after, entries = before ++ e :: after ∧ Distinct before ∧
    ∃ earlier ∈ before, earlier.Shares e

end Entry

open Entry (Distinct FirstRepeat)

namespace Manifest

/-- The entries of a kind. -/
def entries (m : Manifest) : (kind : Kind) → List (Entry kind.Spec)
  | .plain => m.plain
  | .linked => m.linked

/-! ## Keys that occurred before -/

section

variable {seen keys before after : List Key} {key : Key}

theorem firstRepeated?_eq_none_iff :
    firstRepeated? seen keys = none ↔ keys.Nodup ∧ ∀ key ∈ keys, key ∉ seen := by
  induction keys generalizing seen with
  | nil => simp [firstRepeated?]
  | cons first rest ih =>
      by_cases old : first ∈ seen
      · simp [firstRepeated?, old]
      · simp only [firstRepeated?, old, if_false, ih, List.nodup_cons, List.mem_cons, not_or]
        grind

/-- The keys before the one that is found are new, each when its turn comes. -/
theorem split_of_firstRepeated? (found : firstRepeated? seen keys = some key) :
    ∃ before after, keys = before ++ key :: after ∧ before.Nodup ∧ (∀ k ∈ before, k ∉ seen) ∧
      (key ∈ before ∨ key ∈ seen) := by
  induction keys generalizing seen with
  | nil => cases found
  | cons first rest ih =>
      rw [firstRepeated?] at found
      split at found
      case isTrue old =>
        cases found
        exact ⟨[], rest, rfl, List.nodup_nil, nofun, .inr old⟩
      case isFalse new =>
        obtain ⟨before, after, rfl, nodup, unseen, repeated⟩ := ih found
        refine ⟨first :: before, after, rfl, ?_, ?_, ?_⟩
        · exact List.nodup_cons.mpr ⟨fun mem => unseen first mem List.mem_cons_self, nodup⟩
        · exact List.forall_mem_cons.mpr
            ⟨new, fun k mem old => unseen k mem (List.mem_cons_of_mem first old)⟩
        · simp only [List.mem_cons, or_assoc] at repeated ⊢
          exact or_left_comm.mp repeated

theorem firstRepeated?_append (nodup : before.Nodup) (unseen : ∀ k ∈ before, k ∉ seen)
    (repeated : key ∈ before ∨ key ∈ seen) :
    firstRepeated? seen (before ++ key :: after) = some key := by
  induction before generalizing seen with
  | nil =>
      obtain old := repeated.resolve_left List.not_mem_nil
      rw [List.nil_append, firstRepeated?, if_pos old]
  | cons first before ih =>
      obtain ⟨absent, nodup⟩ := List.nodup_cons.mp nodup
      obtain ⟨new, unseen⟩ := List.forall_mem_cons.mp unseen
      rw [List.cons_append, firstRepeated?, if_neg new]
      refine ih nodup (fun k mem => ?_) ?_
      · exact List.not_mem_cons_of_ne_of_not_mem (fun same => absent (same ▸ mem)) (unseen k mem)
      · simp only [List.mem_cons, or_assoc] at repeated ⊢
        exact or_left_comm.mp repeated

end

/-! ## Verdicts -/

section

variable {m : Manifest} {entries : List (Entry σ)} {key : Key}

theorem firstRepeated?_keys_eq_none_iff :
    firstRepeated? [] (entries.map Entry.key) = none ↔ Distinct entries := by
  simp [firstRepeated?_eq_none_iff, Entry.distinct_iff]

theorem firstRepeated?_keys_eq_some_iff :
    firstRepeated? [] (entries.map Entry.key) = some key ↔
      ∃ e, FirstRepeat entries e ∧ e.key = key := by
  constructor
  · intro found
    obtain ⟨keys, later, split, nodup, _, repeated⟩ := split_of_firstRepeated? found
    obtain ⟨before, rest, rfl, rfl, cut⟩ := List.map_eq_append_iff.mp split
    obtain ⟨e, after, rfl, rfl, rfl⟩ := List.map_eq_cons_iff.mp cut
    obtain ⟨earlier, mem, same⟩ := List.mem_map.mp (repeated.resolve_right List.not_mem_nil)
    exact ⟨e, ⟨before, after, rfl, Entry.distinct_iff.mpr nodup, earlier, mem,
      Entry.shares_iff.mpr same⟩, rfl⟩
  · rintro ⟨e, ⟨before, after, rfl, distinct, earlier, mem, shares⟩, rfl⟩
    have repeated : e.key ∈ before.map Entry.key :=
      List.mem_map.mpr ⟨earlier, mem, Entry.shares_iff.mp shares⟩
    rw [List.map_append, List.map_cons]
    exact firstRepeated?_append (Entry.distinct_iff.mp distinct) (fun _ _ => List.not_mem_nil)
      (.inl repeated)

theorem validate_eq_ok_iff {n : Manifest} :
    m.validate = .ok n ↔ n = m ∧ Distinct m.plain ∧ Distinct m.linked := by
  rw [← firstRepeated?_keys_eq_none_iff, ← firstRepeated?_keys_eq_none_iff, validate]
  cases firstRepeated? [] (m.plain.map Entry.key) with
  | some key => simp
  | none => cases firstRepeated? [] (m.linked.map Entry.key) <;> simp [eq_comm]

/-- In a manifest that is accepted no key is declared twice within a kind. -/
theorem nodup_of_validate {n : Manifest} (accepted : m.validate = .ok n) (kind : Kind) :
    ((m.entries kind).map Entry.key).Nodup := by
  obtain ⟨_, plain, linked⟩ := validate_eq_ok_iff.mp accepted
  cases kind with
  | plain => exact Entry.distinct_iff.mp plain
  | linked => exact Entry.distinct_iff.mp linked

theorem validate_eq_error_iff {error : ManifestError} :
    m.validate = .error error ↔
      (∃ e, FirstRepeat m.plain e ∧ error = .duplicate "a" e.key) ∨
      Distinct m.plain ∧ ∃ e, FirstRepeat m.linked e ∧ error = .duplicate "b" e.key := by
  have named {τ : Type} (entries : List (Entry τ)) (kind : String) :
      (∃ e, FirstRepeat entries e ∧ error = .duplicate kind e.key) ↔
        ∃ key, firstRepeated? [] (entries.map Entry.key) = some key ∧
          error = .duplicate kind key := by
    simp only [firstRepeated?_keys_eq_some_iff]
    exact ⟨fun ⟨e, first, same⟩ => ⟨e.key, ⟨e, first, rfl⟩, same⟩,
      fun ⟨_, ⟨e, first, own⟩, same⟩ => ⟨e, first, own ▸ same⟩⟩
  rw [named, named, ← firstRepeated?_keys_eq_none_iff, validate]
  cases firstRepeated? [] (m.plain.map Entry.key) with
  | some key => simp [eq_comm]
  | none => cases firstRepeated? [] (m.linked.map Entry.key) <;> simp [eq_comm]

end

end Manifest

/-! ## Filing the entries -/

namespace Store

variable [DecidableEq σ] {s : Store σ} {entries : List (Entry σ)}

/-- The records of entries are filed one after the other, each at its own instant. -/
def filings (clock : Entry σ → Instant) (entries : List (Entry σ)) : List (Instant × StoreOp σ) :=
  entries.map fun e => (clock e, .create e.toRecord)

/-- A record is filed under a key that is free, or a pending failure is used up in its place. -/
theorem perform_create_of_absent (now : Instant) {r : Record σ}
    (free : s.records[r.key]? = none) :
    ((s.perform now (.create r)).1.IsStoreFault ∨
      (s.perform now (.create r)).1 = .record (fresh r)) ∧
    (∀ key, r.key ≠ key → (s.perform now (.create r)).2.records[key]? = s.records[key]?) ∧
    ∀ n, (s.perform now (.create r)).2.size + (n - (s.perform now (.create r)).2.faults) =
      s.size + (n + 1 - s.faults) := by
  cases pending : s.faults with
  | zero =>
      have filed : s.perform now (.create r) = (.record (fresh r), s.put .added (fresh r)) := by
        rw [perform, create_of_absent pending free]
        rfl
      have absent : ¬ s.records.contains r.key = true := by simpa using free
      have larger : (s.put .added (fresh r)).size = s.size + 1 :=
        Std.ExtTreeMap.size_insert.trans (if_neg absent)
      rw [filed]
      refine ⟨.inr rfl, fun key other => getElem?_insert_of_ne _ other, fun n => ?_⟩
      change (s.put .added (fresh r)).size + (n - s.faults) = _
      omega
  | succ faults =>
      have refused : s.perform now (.create r) =
          (.fault (.store "create" "injected store fault"), { s with faults }) := by
        rw [perform, create, guarded, pending]
        rfl
      rw [refused]
      exact ⟨.inl ⟨_, _, rfl⟩, fun _ _ => rfl, fun n => by rw [Nat.add_sub_add_right]; rfl⟩

/-- Entries of distinct keys that are free are filed, but for those in whose place a pending failure
is used up. -/
theorem filings_land (clock : Entry σ → Instant) (distinct : Distinct entries)
    (free : ∀ e ∈ entries, s.records[e.key]? = none) :
    (∀ call ∈ s.log (filings clock entries),
      call.2.IsStoreFault ∨ ∃ r, call.1.2 = .create r ∧ call.2 = .record (fresh r)) ∧
    (s.performAll (filings clock entries)).size = s.size + (entries.length - s.faults) := by
  induction entries generalizing s with
  | nil => exact ⟨List.forall_mem_nil _, by simp [filings, performAll]⟩
  | cons e entries ih =>
      obtain ⟨apart, distinct⟩ := List.pairwise_cons.mp distinct
      obtain ⟨own, free⟩ := List.forall_mem_cons.mp free
      obtain ⟨answer, others, count⟩ :=
        perform_create_of_absent (clock e) (r := e.toRecord) own
      obtain ⟨answers, size⟩ := ih (s := (s.perform (clock e) (.create e.toRecord)).2) distinct
        fun f among => (others f.key (mt Entry.shares_iff.mpr (apart f among))).trans (free f among)
      refine ⟨List.forall_mem_cons.mpr ⟨?_, answers⟩, size.trans (count _)⟩
      exact answer.imp_right fun filed => ⟨e.toRecord, rfl, filed⟩

end Store

namespace Manifest

open Store (filings)

/-- A manifest is accepted, as it is, exactly when the entries of each kind are distinct.  Otherwise
it is refused for the first entry that repeats the key of an earlier one, the plain ones first.  When
the entries of an accepted manifest are filed in stores without records, no key is taken: each
store has as many records then as there are entries, less the accesses that were set to fail, and
two new stores have as many as the manifest has entries. -/
theorem accepts_distinct_entries (m : Manifest) :
    (∀ n, m.validate = .ok n ↔ n = m ∧ Distinct m.plain ∧ Distinct m.linked) ∧
    (∀ error, m.validate = .error error ↔
      (∃ e, FirstRepeat m.plain e ∧ error = .duplicate "a" e.key) ∨
      Distinct m.plain ∧ ∃ e, FirstRepeat m.linked e ∧ error = .duplicate "b" e.key) ∧
    (m.validate = .ok m →
      (∀ (kind : Kind) (clock : Entry kind.Spec → Instant) (s : Store kind.Spec), s.records = ∅ →
        (∀ call ∈ s.log (filings clock (m.entries kind)), ∀ key,
          call.2 ≠ .fault (.alreadyExists key)) ∧
        (s.performAll (filings clock (m.entries kind))).size =
          (m.entries kind).length - s.faults) ∧
      ∀ (first : Entry Plain → Instant) (second : Entry Linked → Instant),
        (({} : Store Plain).performAll (filings first m.plain)).size +
          (({} : Store Linked).performAll (filings second m.linked)).size = m.size) := by
  refine ⟨fun _ => validate_eq_ok_iff, fun _ => validate_eq_error_iff, fun accepted => ?_⟩
  have distinct (kind : Kind) : Distinct (m.entries kind) :=
    Entry.distinct_iff.mpr (nodup_of_validate accepted kind)
  have landed (kind : Kind) (clock : Entry kind.Spec → Instant) (s : Store kind.Spec)
      (empty : s.records = ∅) :=
    Store.filings_land clock (distinct kind) fun e _ =>
      show s.records[e.key]? = none by rw [empty, Std.ExtTreeMap.getElem?_empty]
  refine ⟨fun kind clock s empty => ⟨fun call filed key taken => ?_, ?_⟩, fun first second => ?_⟩
  · obtain ⟨operation, reason, refused⟩ | ⟨r, _, granted⟩ := (landed kind clock s empty).1 call filed
    · cases refused.symm.trans taken
    · cases granted.symm.trans taken
  · have none : s.size = 0 := by rw [Store.size, empty, Std.ExtTreeMap.size_empty]
    rw [(landed kind clock s empty).2, none, Nat.zero_add]
  · have plain := (landed .plain first {} rfl).2
    have linked := (landed .linked second {} rfl).2
    rw [size]
    exact congrArg₂ (· + ·) (plain.trans (Nat.zero_add _)) (linked.trans (Nat.zero_add _))

/-- Three entries with one written form of the key; only a plain and a linked one share the key. -/
def slashedManifest : Manifest where
  plain := [{ key := ⟨"a/b", "c"⟩, spec := { id := "vm-1" } },
    { key := ⟨"a", "b/c"⟩, spec := { id := "vm-2" } }]
  linked := [{ key := ⟨"a", "b/c"⟩, spec := { id := "vm-3" } }]

theorem accepts_distinct_entries_of_slashes :
    (∀ e ∈ slashedManifest.plain, e.key.text = "a/b/c") ∧
    slashedManifest.validate = .ok slashedManifest ∧
    ({} : Store Plain).records = ∅ ∧
    (∃ call ∈ ({} : Store Plain).log (filings (fun _ => Instant.epoch) slashedManifest.plain),
      call.2 ≠ .fault (.alreadyExists ⟨"a", "b/c"⟩)) ∧
    (({} : Store Plain).performAll
      (filings (fun _ => Instant.epoch) slashedManifest.plain)).size = 2 := by
  obtain ⟨verdict, _, filed⟩ := accepts_distinct_entries slashedManifest
  have accepted : slashedManifest.validate = .ok slashedManifest :=
    (verdict _).mpr ⟨rfl, by simp [slashedManifest, Distinct, Entry.Shares],
      by simp [slashedManifest, Distinct]⟩
  obtain ⟨answers, size⟩ := (filed accepted).1 .plain (fun _ => Instant.epoch) {} rfl
  refine ⟨by decide, accepted, rfl, ⟨_, List.mem_cons_of_mem _ List.mem_cons_self, ?_⟩, size⟩
  exact answers _ (List.mem_cons_of_mem _ List.mem_cons_self) _

/-- Of two keys that occur twice, the one whose second entry comes first is named. -/
example (e f : Entry Plain) (apart : e.key ≠ f.key) :
    validate { plain := [e, f, f, e] } = .error (.duplicate "a" f.key) := by
  simp [validate, firstRepeated?, apart.symm]

end Manifest

end Steward
