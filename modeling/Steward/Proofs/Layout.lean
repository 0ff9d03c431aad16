import Steward.Proofs.Calendar
import Steward.Proofs.Settings
import Steward.Proofs.Versions
import Steward.Site

/-!
# Records come back as they were written

A record that was read from a value is written into a value that reads as the same record.  A field
that is left out stands for its default, and every default is what the reader takes for a missing
field.  A number is written in full, so it has to be one that its reader takes; whatever was read
is.  The payload of a status shares a map with the status' own fields: they stay apart because no
payload has a reserved name, neither after reading nor after any number of merges.
-/

namespace Steward

/-! ## Maps and lists -/

section

variable {β : Type}

theorem getElem?_insertMany_of_not_mem (old : Std.ExtTreeMap String β compare) {name : String}
    {entries : List (String × β)} (absent : name ∉ entries.map Prod.fst) :
    (old.insertMany entries)[name]? = old[name]? :=
  Std.ExtTreeMap.getElem?_insertMany_list_of_contains_eq_false
    (Bool.eq_false_iff.mpr fun member => absent (List.contains_iff_mem.mp member))

/-- Fields that are added one after another replace those of the same name. -/
theorem getElem?_insertMany_toList (old new : Std.ExtTreeMap String β compare)
    (taken : String → Bool) (name : String) :
    (old.insertMany (new.toList.filter fun entry => taken entry.1))[name]? =
      if taken name then new[name]?.or old[name]? else old[name]? := by
  have distinct := (new.distinct_keys_toList).filter fun entry => taken entry.1
  by_cases given : taken name = true ∧ ∃ value, new[name]? = some value
  · obtain ⟨take, value, found⟩ := given
    have member : (name, value) ∈ new.toList.filter fun entry => taken entry.1 :=
      List.mem_filter.mpr ⟨Std.ExtTreeMap.mem_toList_iff_getElem?_eq_some.mpr found, take⟩
    rw [Std.ExtTreeMap.getElem?_insertMany_list_of_mem (Std.ReflCmp.compare_self) distinct member,
      if_pos take, found, Option.some_or]
  · have absent : name ∉ (new.toList.filter fun entry => taken entry.1).map Prod.fst := by
      intro member
      obtain ⟨⟨_, value⟩, entry, rfl⟩ := List.mem_map.mp member
      obtain ⟨entry, take⟩ := List.mem_filter.mp entry
      exact given ⟨take, value, Std.ExtTreeMap.mem_toList_iff_getElem?_eq_some.mp entry⟩
    rw [getElem?_insertMany_of_not_mem old absent]
    split
    · next take =>
        have nothing : new[name]? = none :=
          Option.eq_none_iff_forall_ne_some.mpr fun value found => given ⟨take, value, found⟩
        rw [nothing, Option.none_or]
    · rfl

/-- A map is made of its fields. -/
theorem insertMany_toList (entries : Std.ExtTreeMap String β compare) :
    (∅ : Std.ExtTreeMap String β compare).insertMany entries.toList = entries := by
  refine Std.ExtTreeMap.ext_getElem? fun name => ?_
  have all := getElem?_insertMany_toList ∅ entries (fun _ => true) name
  rw [List.filter_true] at all
  rw [all, if_pos rfl, Std.ExtTreeMap.getElem?_empty, Option.or_none]

theorem mapM_map {α δ : Type} (write : α → δ) (read : δ → Option α)
    (back : ∀ a, read (write a) = some a) (items : List α) :
    (items.map write).mapM read = some items := by
  have each : read ∘ write = fun a => pure a := funext back
  rw [List.mapM_map, each, List.mapM_pure, List.map_id']
  rfl

end

/-! ## Metadata -/

/-- A field that is left out for a default is read as that default. -/
theorem Source.orElse_ite {δ α : Type} {default a : α} {read : δ → Option α} {empty : Bool} {d : δ}
    (absent : empty = true → default = a) (reads : read d = some a) :
    orElse default read (if empty then none else some d) = some a := by
  split
  · next left => exact congrArg some (absent left)
  · exact reads

namespace Value

variable {α : Type}

theorem source_text? : (Source.text? : Value → Option String) = Value.text? := rfl

/-- A text that is left out when it is empty is read as empty. -/
theorem orElse_text (s : String) :
    Source.orElse "" Value.text? (if s.isEmpty then none else some (Value.text s)) = some s :=
  Source.orElse_ite (fun empty => (String.isEmpty_iff.mp empty).symm) rfl

theorem listOf?_texts (items : List String) :
    Source.listOf? Value.text? (texts items) = some items :=
  mapM_map Value.text Value.text? (fun _ => rfl) items

theorem orElse_texts (items : List String) :
    Source.orElse [] (Source.listOf? Value.text?)
      (if items.isEmpty then none else some (Value.texts items)) = some items :=
  Source.orElse_ite (fun empty => (List.isEmpty_iff.mp empty).symm) (listOf?_texts items)

theorem lookup_optional (content : Option α) (label name : String) (write : α → Value) :
    (content.toList.map fun a => (label, write a)).lookup name =
      bif name == label then content.map write else none := by
  cases content with
  | none => exact (Bool.cond_self _ none).symm
  | some a =>
      rw [Option.toList_some, List.map_singleton, List.lookup_cons, List.lookup_nil]
      cases name == label <;> rfl

end Value

theorem Annotations.read?_toValue (annotations : Annotations) :
    read? annotations.toValue = some annotations := by
  have entries : ofEntries annotations.toList = annotations :=
    Std.ExtTreeMap.insertMany_list_eq_foldl.symm.trans (insertMany_toList annotations)
  have back := mapM_map (fun (entry : String × String) => (entry.1, Value.text entry.2))
    (fun entry => (Source.text? entry.2).map fun s => (entry.1, s)) (fun _ => rfl)
    annotations.toList
  exact (congrArg (Option.bind · fun entries => some (ofEntries entries)) back).trans
    (congrArg some entries)

namespace Metadata

variable {m : Metadata}

/-- What a reader of metadata can give. -/
structure Legible (m : Metadata) : Prop where
  instant : ∀ t, m.deletionRequestedAt = some t → t.Valid
  resourceVersion : m.resourceVersion ≤ Counter.ceiling
  generation : m.generation ≤ Counter.ceiling

theorem valid_of_readInstant? {content : Option Value} {t : Instant}
    (read : readInstant? content = some (some t)) : t.Valid := by
  unfold readInstant? at read
  split at read
  · cases read
  · cases read
  · obtain ⟨_, moment, same⟩ := Option.map_eq_some_iff.mp read
    obtain ⟨_, -, moment⟩ := Option.bind_eq_some_iff.mp moment
    cases same
    exact Instant.valid_of_ofText? moment

theorem legible_of_ofValue? {v : Value} (read : ofValue? v = some m) : m.Legible := by
  simp only [ofValue?, Option.bind_eq_bind, Option.bind_eq_some_iff, Option.pure_def,
    Option.some.injEq] at read
  obtain ⟨_, -, _, -, _, -, _, -, _, -, instant, moment, _, version, _, generation, rfl⟩ := read
  exact
    { instant := fun _ asked => valid_of_readInstant? (moment.trans (congrArg some asked))
      resourceVersion := wordly_value.le_of_orElse (Nat.zero_le _) version
      generation := wordly_value.le_of_orElse (Nat.zero_le _) generation }

theorem ofValue?_toValue (legible : m.Legible) : ofValue? m.toValue = some m := by
  obtain ⟨⟨ns, name⟩, annotations, finalizers, instant, version, generation⟩ := m
  have annotated : Source.orElse ∅ Annotations.read?
      (if annotations.isEmpty then none else some annotations.toValue) = some annotations :=
    Source.orElse_ite (fun empty => (Std.ExtTreeMap.isEmpty_iff.mp empty).symm)
      annotations.read?_toValue
  have marked : readInstant? (instant.map fun t => Value.text t.text) = some instant := by
    cases instant with
    | none => rfl
    | some t =>
        simp only [Option.map_some, readInstant?, Value.text?, Option.bind_eq_bind,
          Option.bind_some, Instant.ofText?_text (legible.instant t rfl)]
  have counted {n : Nat} (small : n ≤ Counter.ceiling) :
      Source.orElse 0 Source.nat? (some (Value.int n)) = some n := nat64?_natCast small
  simp only [ofValue?, toValue, Value.fields?, Option.bind_eq_bind, Option.bind_some,
    List.cons_append, List.nil_append]
  simp only [List.lookup_append, List.lookup_cons, List.lookup_nil, Value.lookup_unlessEmpty,
    Value.lookup_optional, String.reduceBEq, cond_true, cond_false, ite_self, Option.or_none,
    Option.none_or, annotated, Value.orElse_texts, marked, counted legible.resourceVersion,
    counted legible.generation, Option.bind_some, Value.text?, Option.pure_def]

end Metadata

/-! ## Specifications -/

/-- A signed whole number of 64 bits. -/
def IsWord (n : Int) : Prop := -9223372036854775808 ≤ n ∧ n ≤ 9223372036854775807

theorem isWord_of_int? {v : Value} {n : Int} (read : Source.int? v = some n) : IsWord n := by
  cases v with
  | int m =>
      obtain ⟨word, same⟩ := Option.ite_none_right_eq_some.mp (show int64? m = some n from read)
      rwa [← Option.some_inj.mp same]
  | _ => cases read

theorem isWord_of_orElse {field : Option Value} {n : Int}
    (content : Source.orElse 0 Source.int? field = some n) : IsWord n :=
  Source.of_orElse (P := IsWord) ⟨by decide, by decide⟩ (fun _ _ => isWord_of_int?) content

theorem Plain.isWord_of_read? {v : Value} {p : Plain} (read : Layout.read? v = some p) :
    IsWord p.intData := by
  simp only [Layout.read?, Option.bind_eq_bind, Option.bind_eq_some_iff, Option.pure_def,
    Option.some.injEq] at read
  obtain ⟨_, -, _, -, _, -, _, number, rfl⟩ := read
  exact isWord_of_orElse number

theorem Linked.isWord_of_read? {v : Value} {l : Linked} (read : Layout.read? v = some l) :
    IsWord l.intData := by
  simp only [Layout.read?, Option.bind_eq_bind, Option.bind_eq_some_iff, Option.pure_def,
    Option.some.injEq] at read
  obtain ⟨_, -, _, -, _, -, _, number, _, -, _, -, rfl⟩ := read
  exact isWord_of_orElse number

theorem Value.orElse_int {n : Int} (word : IsWord n) :
    Source.orElse 0 Source.int? (some (Value.int n)) = some n := if_pos word

theorem Plain.read?_write {p : Plain} (word : IsWord p.intData) :
    Layout.read? (Layout.write p) = some p := by
  simp only [Layout.read?, Layout.write, Source.fields?, Value.fields?, Option.bind_eq_bind,
    Option.bind_some, List.cons_append, List.nil_append]
  simp only [List.lookup_append, List.lookup_cons, List.lookup_nil, Value.lookup_unlessEmpty,
    String.reduceBEq, ite_self, Option.or_none, Option.none_or, Option.bind_some,
    Value.source_text?, Value.text?, Value.orElse_text, Value.orElse_int word, Option.pure_def]

theorem Linked.read?_write {l : Linked} (word : IsWord l.intData) :
    Layout.read? (Layout.write l) = some l := by
  simp only [Layout.read?, Layout.write, Source.fields?, Value.fields?, Option.bind_eq_bind,
    Option.bind_some, List.cons_append, List.nil_append]
  simp only [List.lookup_append, List.lookup_cons, List.lookup_nil, Value.lookup_unlessEmpty,
    String.reduceBEq, ite_self, Option.or_none, Option.none_or, Option.bind_some,
    Value.source_text?, Value.text?, Value.orElse_text, Value.orElse_texts, Value.orElse_int word,
    Option.pure_def]

/-- A specification that was read is read again from what is written for it. -/
theorem Kind.read?_write_of_read? : (kind : Kind) → ∀ {v : Value} {spec : kind.Spec},
    Layout.read? v = some spec → Layout.read? (Layout.write spec) = some spec
  | .plain, _, _, read => Plain.read?_write (Plain.isWord_of_read? read)
  | .linked, _, _, read => Linked.read?_write (Linked.isWord_of_read? read)

/-! ## Statuses -/

theorem Phase.ofName?_name (phase : Phase) : Named.ofName? (Named.name phase) = some phase := by
  cases phase <;> decide

theorem Mutation.ofName?_name (m : Mutation) : Named.ofName? (Named.name m) = some m := by
  cases m <;> decide

namespace Status

variable {s : Status}

/-- No field of the payload has the name of one of the status' own. -/
def Unreserved (s : Status) : Prop := ∀ name ∈ reserved, s.payload[name]? = none

/-- Merges payloads one after another. -/
def mergeAll (s : Status) (payloads : List Payload) : Status := payloads.foldl merge s

theorem payload_merge (s : Status) (fields : Payload) (name : String) :
    (s.merge fields).payload[name]? =
      if name ∈ reserved then s.payload[name]? else fields[name]?.or s.payload[name]? := by
  have skipped : (s.merge fields).payload =
      s.payload.insertMany (fields.toList.filter fun entry => decide (entry.1 ∉ reserved)) := by
    rw [Std.ExtTreeMap.insertMany_list_eq_foldl, List.foldl_filter]
    exact congrArg (fun add => fields.toList.foldl add s.payload) (funext₂ fun payload entry => by
      by_cases own : entry.1 ∈ reserved <;> simp [own])
  rw [skipped, getElem?_insertMany_toList s.payload fields fun name => decide (name ∉ reserved)]
  by_cases own : name ∈ reserved <;> simp [own]

theorem Unreserved.merge (clear : s.Unreserved) (fields : Payload) : (s.merge fields).Unreserved :=
  fun name own => by rw [payload_merge, if_pos own, clear name own]

theorem Unreserved.mergeAll (clear : s.Unreserved) (payloads : List Payload) :
    (s.mergeAll payloads).Unreserved := by
  induction payloads generalizing s with
  | nil => exact clear
  | cons fields payloads ih => exact ih (clear.merge fields)

/-- Merging leaves the status' own fields as they are. -/
theorem own_mergeAll (s : Status) (payloads : List Payload) :
    (s.mergeAll payloads).phase = s.phase ∧ (s.mergeAll payloads).message = s.message ∧
      (s.mergeAll payloads).operation = s.operation := by
  induction payloads generalizing s with
  | nil => exact ⟨rfl, rfl, rfl⟩
  | cons fields payloads ih => exact ih (s.merge fields)

/-- Every field of the payload has the value that was merged last, or the one from before. -/
theorem payload_mergeAll (s : Status) (payloads : List Payload) {name : String}
    (free : name ∉ reserved) :
    (s.mergeAll payloads).payload[name]? =
      (payloads.reverse.findSome? fun fields => fields[name]?).or s.payload[name]? := by
  induction payloads generalizing s with
  | nil => rfl
  | cons fields payloads ih =>
      rw [mergeAll, List.foldl_cons, ← mergeAll, ih, payload_merge, if_neg free,
        List.reverse_cons, List.findSome?_append, List.findSome?_singleton, Option.or_assoc]

theorem unreserved_of_ofValue? {v : Value} (read : ofValue? v = some s) : s.Unreserved := by
  simp only [ofValue?, Option.bind_eq_bind, Option.bind_eq_some_iff, Option.pure_def,
    Option.some.injEq] at read
  obtain ⟨entries, -, _, -, _, -, _, -, rfl⟩ := read
  intro name own
  have absent : name ∉ (entries.filter fun entry => entry.1 ∉ reserved).map Prod.fst := by
    intro member
    obtain ⟨entry, kept, rfl⟩ := List.mem_map.mp member
    exact of_decide_eq_true (List.mem_filter.mp kept).2 own
  have unchanged := getElem?_insertMany_of_not_mem (∅ : Payload) absent
  rwa [Std.ExtTreeMap.insertMany_list_eq_foldl, Std.ExtTreeMap.getElem?_empty] at unchanged

theorem readCase?_name {ε : Type} [Named ε]
    (named : ∀ e : ε, Named.ofName? (Named.name e) = some e) (content : Option ε) :
    readCase? (content.map fun e => .text (Named.name e)) = some content := by
  cases content with
  | none => rfl
  | some e =>
      change (Named.ofName? (Named.name e)).map some = some (some e)
      rw [named, Option.map_some]

theorem ofValue?_toValue (clear : s.Unreserved) : ofValue? s.toValue = some s := by
  have free : ∀ entry ∈ s.payload.toList, entry.1 ∉ reserved := by
    intro entry member own
    have found := Std.ExtTreeMap.mem_toList_iff_getElem?_eq_some.mp member
    rw [clear _ own] at found
    cases found
  have absent {name : String} (own : name ∈ reserved) : s.payload.toList.lookup name = none :=
    List.lookup_eq_none_iff.mpr fun entry member =>
      bne_iff_ne.mpr fun same => free entry member (same ▸ own)
  have ownNames : ∀ entry ∈ s.ownFields, entry.1 ∈ reserved := by
    intro entry member
    simp only [ownFields, List.mem_append, List.mem_cons, List.mem_map] at member
    obtain ⟨_, -, rfl⟩ | rfl | ⟨_, -, rfl⟩ := member <;> simp [reserved]
  have payload : Payload.ofEntries
      ((s.ownFields ++ s.payload.toList).filter fun entry => entry.1 ∉ reserved) = s.payload := by
    rw [List.filter_append, List.filter_eq_nil_iff.mpr (by simpa using ownNames),
      List.filter_eq_self.mpr (by simpa using free), List.nil_append]
    exact Std.ExtTreeMap.insertMany_list_eq_foldl.symm.trans (insertMany_toList s.payload)
  simp only [ofValue?, toValue, Value.entries?, Option.bind_eq_bind, Option.bind_some, payload]
  simp only [ownFields, List.lookup_append, List.lookup_cons, Value.lookup_optional,
    String.reduceBEq, cond_true, cond_false, Option.none_or, Option.or_none,
    absent (show "state" ∈ reserved by decide), absent (show "message" ∈ reserved by decide),
    absent (show "operation" ∈ reserved by decide), readCase?_name Phase.ofName?_name,
    readCase?_name Mutation.ofName?_name, Source.orElse_some, Value.text?, Option.bind_some,
    Option.pure_def]

end Status

/-! ## Records -/

namespace Record

variable {kind : Kind} {r : Record kind.Spec}

/-- What a reader of records can give, whatever was merged into the status since. -/
structure Legible (r : Record kind.Spec) : Prop where
  metadata : r.metadata.Legible
  spec : Layout.read? (Layout.write r.spec) = some r.spec
  status : r.status.Unreserved

theorem legible_of_ofValue? {v : Value} (read : ofValue? v = some r) : r.Legible := by
  simp only [ofValue?, Option.bind_eq_bind, Option.bind_eq_some_iff, Option.pure_def,
    Option.some.injEq] at read
  obtain ⟨_, -, _, ⟨_, -, metadata⟩, _, ⟨_, -, spec⟩, _, status, rfl⟩ := read
  exact
    { metadata := Metadata.legible_of_ofValue? metadata
      spec := kind.read?_write_of_read? spec
      status := Source.of_orElse (P := Status.Unreserved) (fun _ _ => rfl)
        (fun _ _ => Status.unreserved_of_ofValue?) status }

theorem ofValue?_toValue (legible : r.Legible) : ofValue? r.toValue = some r := by
  simp only [ofValue?, toValue, Value.fields?, Option.bind_eq_bind, Option.bind_some,
    List.lookup_cons, String.reduceBEq, Metadata.ofValue?_toValue legible.metadata, legible.spec,
    Source.orElse_some, Status.ofValue?_toValue legible.status, Option.pure_def]

end Record

/-- Whatever was read comes back as it was written: a record of either kind, also after payloads
were merged into its status, and a status by itself.  Merging keeps the reserved names out of the
payload and the status' own fields as they were, and of every other field the last value counts. -/
theorem layouts_round_trip :
    (∀ (kind : Kind) (v : Value) (r : Record kind.Spec), Record.ofValue? v = some r →
      Record.ofValue? r.toValue = some r ∧
      ∀ payloads : List Payload,
        Record.ofValue? { r with status := r.status.mergeAll payloads : Record kind.Spec }.toValue =
          some { r with status := r.status.mergeAll payloads }) ∧
    ∀ (v : Value) (s : Status), Status.ofValue? v = some s → ∀ payloads : List Payload,
      Status.ofValue? (s.mergeAll payloads).toValue = some (s.mergeAll payloads) ∧
      (∀ name ∈ Status.reserved, (s.mergeAll payloads).payload[name]? = none) ∧
      (s.mergeAll payloads).phase = s.phase ∧
      (s.mergeAll payloads).message = s.message ∧
      (s.mergeAll payloads).operation = s.operation ∧
      ∀ name ∉ Status.reserved, (s.mergeAll payloads).payload[name]? =
        (payloads.reverse.findSome? fun fields => fields[name]?).or s.payload[name]? := by
  refine ⟨fun kind v r read => ?_, fun v s read payloads => ?_⟩
  · have legible := Record.legible_of_ofValue? read
    exact ⟨Record.ofValue?_toValue legible, fun payloads => Record.ofValue?_toValue
      { legible with status := legible.status.mergeAll payloads }⟩
  · have clear := (Status.unreserved_of_ofValue? read).mergeAll payloads
    obtain ⟨phase, message, operation⟩ := s.own_mergeAll payloads
    exact ⟨Status.ofValue?_toValue clear, clear, phase, message, operation,
      fun _ => s.payload_mergeAll payloads⟩

/-- A status with a field that is null and one that is given twice. -/
def sampleStatusDocument : Value :=
  .map [("state", .text "Failed"), ("operation", .null), ("message", .text "gone"),
    ("size", .int 3), ("size", .decimal 5 1)]

def sampleDocument : Value :=
  .map [
    ("metadata", .map [("name", .text "b-1"), ("namespace", .text "default"),
      ("annotations", .map [("team", .text "x")]), ("finalizers", .list [.text "b.finalizers.com"]),
      ("deletionRequestedAt", .text "2024-02-29T23:59:60.00025Z"),
      ("resourceVersion", .int 18446744073709551615)]),
    ("spec", .map [("id", .text "id-b-1"), ("intData", .int (-1)), ("owner", .text "")]),
    ("status", sampleStatusDocument)]

def sampleReading : Record Kind.linked.Spec where
  metadata :=
    { key := ⟨"default", "b-1"⟩
      annotations := Annotations.ofEntries [("team", "x")]
      finalizers := ["b.finalizers.com"]
      deletionRequestedAt := some ⟨2024, 2, 29, 23, 59, 60, 250000⟩
      resourceVersion := Counter.ceiling }
  spec := ({ id := "id-b-1", intData := -1 } : Linked)
  status :=
    { phase := some .failed, message := "gone"
      payload := Payload.ofEntries [("size", .decimal 5 1)] }

/-- The first of these has a field with a reserved name. -/
def sampleMerges : List Payload :=
  [Payload.ofEntries [("state", .text "Ready"), ("size", .int 7)],
    Payload.ofEntries [("size", .int 8)]]

theorem layouts_round_trip_of_sample :
    Record.ofValue? sampleDocument = some sampleReading ∧
    Record.ofValue? sampleReading.toValue = some sampleReading ∧
    Status.ofValue? sampleStatusDocument = some sampleReading.status ∧
    (sampleReading.status.mergeAll sampleMerges).payload["state"]? = none ∧
    (sampleReading.status.mergeAll sampleMerges).payload["size"]? = some (.int 8) := by
  have record : Record.ofValue? sampleDocument = some sampleReading := by decide +kernel
  have status : Status.ofValue? sampleStatusDocument = some sampleReading.status := by
    decide +kernel
  obtain ⟨_, clear, _, _, _, last⟩ := layouts_round_trip.2 _ _ status sampleMerges
  refine ⟨record, (layouts_round_trip.1 .linked _ _ record).1, status, clear "state" (by decide),
    (last "size" (by decide)).trans ?_⟩
  decide +kernel

end Steward
