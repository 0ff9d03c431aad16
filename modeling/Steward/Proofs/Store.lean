import Mathlib.Logic.Basic
import Steward.Store

/-!
# What becomes of one record

The laws of the store, seen from one key.  `Becomes` says what a single operation may make of the
record under the key; everything that is proved about the records of a run comes from this list.  An
access that fails leaves the records alone, and a write that succeeds was based on the version that
it found.
-/

namespace Steward.Store

variable {σ α : Type} {s : Store σ} {key : Key}

/-- Every record lies under its own key. -/
def Filed (s : Store σ) : Prop :=
  ∀ (key : Key) (r : Record σ), s.records[key]? = some r → r.key = key

theorem filed_empty : Filed ({} : Store σ) := by
  intro key r found
  simp at found

@[simp]
theorem bumped_finalizers (r : Record σ) :
    (bumped r).metadata.finalizers = r.metadata.finalizers := rfl

@[simp]
theorem bumped_isDeletionRequested (r : Record σ) :
    (bumped r).metadata.isDeletionRequested = r.metadata.isDeletionRequested := rfl

/-- The record that an update makes of a stored one. -/
def rewritten [DecidableEq σ] (incoming stored : Record σ) : Record σ :=
  { stored with
    spec := incoming.spec
    metadata :=
      { stored.metadata with
        annotations := incoming.metadata.annotations
        finalizers := incoming.metadata.finalizers
        generation :=
          if stored.spec = incoming.spec then stored.metadata.generation
          else Counter.next stored.metadata.generation } }

/-- The record that a write of a status makes of a stored one. -/
def restated (incoming stored : Record σ) : Record σ := { stored with status := incoming.status }

/-- A record as it is filed first. -/
def fresh (r : Record σ) : Record σ :=
  { r with
    metadata :=
      { r.metadata with resourceVersion := 1, generation := 1, deletionRequestedAt := none } }

theorem update_eq [DecidableEq σ] (s : Store σ) (incoming : Record σ) :
    s.update incoming = s.writeWith "update" incoming (rewritten incoming) := rfl

theorem updateStatus_eq (s : Store σ) (incoming : Record σ) :
    s.updateStatus incoming = s.writeWith "update_status" incoming (restated incoming) := rfl

/-! ## Accesses that fail, and accesses that succeed -/

/-- A guarded access is refused, and then only uses up a pending failure, or takes place. -/
theorem guarded_cases (s : Store σ) (operation : String) (access : Except Fault α × Store σ) :
    (∃ fault n, s.guarded operation access = (.error fault, { s with faults := n })) ∨
      s.guarded operation access = access := by
  rw [guarded]
  split
  · exact .inr rfl
  · exact .inl ⟨_, _, rfl⟩

theorem guarded_of_sound (sound : s.faults = 0) (operation : String)
    (access : Except Fault α × Store σ) : s.guarded operation access = access := by
  rw [guarded, sound]

theorem get_records (s : Store σ) (key : Key) : (s.get key).2.records = s.records := by
  obtain ⟨fault, n, refused⟩ | granted := guarded_cases s "get" (.ok s.records[key]?, s)
  · rw [get, refused]
  · rw [get, granted]

theorem get_ok {found : Option (Record σ)} (answer : (s.get key).1 = .ok found) :
    found = s.records[key]? := by
  obtain ⟨fault, n, refused⟩ | granted := guarded_cases s "get" (.ok s.records[key]?, s)
  · rw [get, refused] at answer
    cases answer
  · rw [get, granted] at answer
    cases answer
    rfl

theorem readStatus_records (s : Store σ) (key : Key) :
    (s.readStatus key).2.records = s.records := by
  obtain ⟨fault, n, refused⟩ | granted :=
    guarded_cases s "read_status" (.ok (s.records[key]?.map Record.status), s)
  · rw [readStatus, refused]
  · rw [readStatus, granted]

theorem readStatus_ok {found : Option Status} (answer : (s.readStatus key).1 = .ok found) :
    found = s.records[key]?.map Record.status := by
  obtain ⟨fault, n, refused⟩ | granted :=
    guarded_cases s "read_status" (.ok (s.records[key]?.map Record.status), s)
  · rw [readStatus, refused] at answer
    cases answer
  · rw [readStatus, granted] at answer
    cases answer
    rfl

/-- An access to one record is refused and changes no record, or it finds the record. -/
theorem guarded_withRecord_cases (s : Store σ) (operation : String) (key : Key)
    (act : Record σ → Except Fault α × Store σ) :
    (∃ fault, (s.guarded operation (s.withRecord key act)).1 = .error fault ∧
      (s.guarded operation (s.withRecord key act)).2.records = s.records) ∨
    ∃ stored, s.records[key]? = some stored ∧
      s.guarded operation (s.withRecord key act) = act stored := by
  obtain ⟨fault, n, refused⟩ | granted := guarded_cases s operation (s.withRecord key act)
  · exact .inl ⟨fault, by rw [refused], by rw [refused]⟩
  rw [granted]
  rw [withRecord]
  cases found : s.records[key]? with
  | none => exact .inl ⟨.notFound key, rfl, rfl⟩
  | some stored => exact .inr ⟨stored, rfl, rfl⟩

/-- A write is refused and changes no record, or it rewrites the record that it was based on. -/
theorem writeWith_cases (s : Store σ) (operation : String) (incoming : Record σ)
    (change : Record σ → Record σ) :
    (∃ fault, (s.writeWith operation incoming change).1 = .error fault ∧
      (s.writeWith operation incoming change).2.records = s.records) ∨
    ∃ stored, s.records[incoming.key]? = some stored ∧
      stored.metadata.resourceVersion = incoming.metadata.resourceVersion ∧
      (s.writeWith operation incoming change).1 = .ok (bumped (change stored)) ∧
      (s.writeWith operation incoming change).2.records =
        if (change stored).metadata.isDeletionRequested ∧
            (change stored).metadata.finalizers = [] then
          s.records.erase incoming.key
        else s.records.insert (change stored).key (bumped (change stored)) := by
  rw [writeWith]
  obtain refused | ⟨stored, found, granted⟩ := guarded_withRecord_cases s operation incoming.key _
  · exact .inl refused
  rw [granted]
  by_cases current : incoming.metadata.resourceVersion = stored.metadata.resourceVersion
  · refine .inr ⟨stored, found, current.symm, ?_⟩
    simp only [ne_eq, current, not_true_eq_false, if_false, bumped_isDeletionRequested,
      bumped_finalizers, Bool.and_eq_true, List.isEmpty_iff]
    split <;> exact ⟨rfl, rfl⟩
  · exact .inl ⟨.conflict incoming.key incoming.metadata.resourceVersion
      stored.metadata.resourceVersion, by simp [current], by simp [current]⟩

/-- A write that is based on the stored version goes through. -/
theorem writeWith_of_current (sound : s.faults = 0) (incoming : Record σ) {stored : Record σ}
    (found : s.records[incoming.key]? = some stored)
    (current : incoming.metadata.resourceVersion = stored.metadata.resourceVersion)
    (operation : String) (change : Record σ → Record σ) :
    s.writeWith operation incoming change =
      (.ok (bumped (change stored)),
        if (change stored).metadata.isDeletionRequested &&
            (change stored).metadata.finalizers.isEmpty then s.drop incoming.key
        else s.put .modified (bumped (change stored))) := by
  rw [writeWith, guarded_of_sound sound, withRecord, found]
  simp only [current, ne_eq, not_true_eq_false, if_false, bumped_isDeletionRequested,
    bumped_finalizers]
  exact (apply_ite (Prod.mk _) _ _ _).symm

theorem create_of_absent (sound : s.faults = 0) {r : Record σ} (absent : s.records[r.key]? = none) :
    s.create r = (.ok (fresh r), s.put .added (fresh r)) := by
  have free : r.key ∉ s.records := by simpa using absent
  rw [create, guarded_of_sound sound, if_neg free]
  rfl

theorem create_of_stored (sound : s.faults = 0) {r stored : Record σ}
    (found : s.records[r.key]? = some stored) :
    s.create r = (.error (.alreadyExists r.key), s) := by
  have taken : r.key ∈ s.records := by
    rw [← Std.ExtTreeMap.isSome_getElem?_iff_mem, found]
    rfl
  rw [create, guarded_of_sound sound, if_pos taken]

/-! ## Every record stays under its own key -/

theorem Filed.of_eq {t : Store σ} (filed : s.Filed) (same : t.records = s.records) : t.Filed := by
  intro key r found
  rw [same] at found
  exact filed key r found

theorem Filed.of_insert {t : Store σ} (filed : s.Filed) {r : Record σ}
    (put : t.records = s.records.insert r.key r) : t.Filed := by
  intro key r' found
  rw [put, Std.ExtTreeMap.getElem?_insert] at found
  split at found
  next same =>
    cases found
    exact Std.LawfulEqCmp.compare_eq_iff_eq.mp same
  next => exact filed key r' found

theorem Filed.of_erase {t : Store σ} (filed : s.Filed) {gone : Key}
    (dropped : t.records = s.records.erase gone) : t.Filed := by
  intro key r found
  rw [dropped, Std.ExtTreeMap.getElem?_erase] at found
  split at found
  next => cases found
  next => exact filed key r found

theorem getElem?_insert_of_ne {records : KeyMap (Record σ)} {other key : Key} (r : Record σ)
    (ne : other ≠ key) : (records.insert other r)[key]? = records[key]? := by
  rw [Std.ExtTreeMap.getElem?_insert, if_neg]
  rwa [Std.LawfulEqCmp.compare_eq_iff_eq]

theorem getElem?_erase_of_ne {records : KeyMap (Record σ)} {other key : Key}
    (ne : other ≠ key) : (records.erase other)[key]? = records[key]? := by
  rw [Std.ExtTreeMap.getElem?_erase, if_neg]
  rwa [Std.LawfulEqCmp.compare_eq_iff_eq]

theorem writeWith_filed {operation : String} {incoming : Record σ}
    {change : Record σ → Record σ} (filed : s.Filed) :
    (s.writeWith operation incoming change).2.Filed := by
  obtain ⟨_, _, same⟩ | ⟨stored, _, _, _, records⟩ := writeWith_cases s operation incoming change
  · exact filed.of_eq same
  · split at records
    · exact filed.of_erase records
    · exact filed.of_insert (r := bumped (change stored)) records

/-- A write that is answered with a record that has finalizers leaves this record in the store. -/
theorem writeWith_shows {operation : String} {incoming r : Record σ}
    {change : Record σ → Record σ} (written : (s.writeWith operation incoming change).1 = .ok r)
    (held : r.metadata.finalizers ≠ []) :
    (s.writeWith operation incoming change).2.records[r.key]? = some r := by
  obtain ⟨_, refused, _⟩ | ⟨stored, _, _, granted, records⟩ :=
    writeWith_cases s operation incoming change
  · cases refused.symm.trans written
  cases granted.symm.trans written
  rw [records, if_neg fun gone => held gone.2]
  exact Std.ExtTreeMap.getElem?_insert_self

/-- What a write makes of the record under `key`: nothing, or what `change` makes of it, and then
the write succeeds, was based on the version that it found, and drops the record if it leaves a
record that is to be deleted without finalizers. -/
theorem writeWith_lookup (filed : s.Filed) (operation : String) (incoming : Record σ)
    (change : Record σ → Record σ) (keeps : ∀ r, (change r).key = r.key) (key : Key) :
    (s.writeWith operation incoming change).2.records[key]? = s.records[key]? ∨
    ∃ stored, incoming.key = key ∧ s.records[key]? = some stored ∧
      stored.metadata.resourceVersion = incoming.metadata.resourceVersion ∧
      (s.writeWith operation incoming change).1 = .ok (bumped (change stored)) ∧
      (s.writeWith operation incoming change).2.records[key]? =
        if (change stored).metadata.isDeletionRequested ∧
            (change stored).metadata.finalizers = [] then none
        else some (bumped (change stored)) := by
  obtain ⟨_, _, same⟩ | ⟨stored, found, current, answer, records⟩ :=
    writeWith_cases s operation incoming change
  · exact .inl (by rw [same])
  have own : (change stored).key = incoming.key := (keeps stored).trans (filed _ _ found)
  rw [own] at records
  by_cases here : incoming.key = key
  · subst here
    refine .inr ⟨stored, rfl, found, current, answer, ?_⟩
    rw [records]
    split
    · exact Std.ExtTreeMap.getElem?_erase_self
    · exact Std.ExtTreeMap.getElem?_insert_self
  · refine .inl ?_
    rw [records]
    split
    · exact getElem?_erase_of_ne here
    · exact getElem?_insert_of_ne _ here

/-! ## One list of what may happen to a record -/

variable [DecidableEq σ]

/-- What an operation may make of the record under `key`, where there may be none before and none
after. -/
inductive Becomes (key : Key) : StoreOp σ → Option (Record σ) → Option (Record σ) → Prop where
  | unchanged {op : StoreOp σ} {found : Option (Record σ)} : Becomes key op found found
  | created {r : Record σ} (own : r.key = key) : Becomes key (.create r) none (some (fresh r))
  | respecified {stored : Record σ} {spec : σ} :
      Becomes key (.applySpec key spec) (some stored)
        (some (bumped
          { stored with
            spec
            metadata :=
              { stored.metadata with generation := Counter.next stored.metadata.generation } }))
  | annotated {stored : Record σ} {name value : String} :
      Becomes key (.annotate key name value) (some stored)
        (some (bumped
          { stored with
            metadata :=
              { stored.metadata with
                annotations := stored.metadata.annotations.insert name value } }))
  | marked {stored : Record σ} {now : Instant} (held : stored.metadata.finalizers ≠ []) :
      Becomes key (.requestDeletion key) (some stored)
        (some (bumped
          { stored with metadata := { stored.metadata with deletionRequestedAt := some now } }))
  | dropped {stored : Record σ} (free : stored.metadata.finalizers = []) :
      Becomes key (.requestDeletion key) (some stored) none
  | updated {stored r : Record σ} {latest : Bool} (own : r.key = key)
      (current : latest = false →
        stored.metadata.resourceVersion = r.metadata.resourceVersion) :
      Becomes key (.update r latest) (some stored)
        (if (rewritten r stored).metadata.isDeletionRequested ∧
            (rewritten r stored).metadata.finalizers = [] then none
        else some (bumped (rewritten r stored)))
  | statusUpdated {stored r : Record σ} {latest : Bool} (own : r.key = key)
      (current : latest = false →
        stored.metadata.resourceVersion = r.metadata.resourceVersion) :
      Becomes key (.updateStatus r latest) (some stored)
        (if (restated r stored).metadata.isDeletionRequested ∧
            (restated r stored).metadata.finalizers = [] then none
        else some (bumped (restated r stored)))

omit [DecidableEq σ] in
theorem reply_snd (ok : α → StoreReply σ) (result : Except Fault α × Store σ) :
    (reply ok result).2 = result.2 := by
  obtain ⟨_ | _, _⟩ := result <;> rfl

omit [DecidableEq σ] in
theorem reply_fst_of_error (ok : α → StoreReply σ) {result : Except Fault α × Store σ}
    {fault : Fault} (refused : result.1 = .error fault) : (reply ok result).1 = .fault fault := by
  obtain ⟨_, _⟩ := result
  cases refused
  rfl

omit [DecidableEq σ] in
theorem rebased_key (s : Store σ) (r : Record σ) : (s.rebased r).key = r.key := by
  rw [rebased]
  split <;> rfl

theorem rewritten_rebased (r stored : Record σ) :
    rewritten (s.rebased r) stored = rewritten r stored := by
  rw [rebased]
  split <;> rfl

omit [DecidableEq σ] in
theorem restated_rebased (r stored : Record σ) :
    restated (s.rebased r) stored = restated r stored := by
  rw [rebased]
  split <;> rfl

omit [DecidableEq σ] in
theorem create_cases (s : Store σ) (r : Record σ) :
    (∃ fault, (s.create r).1 = .error fault ∧ (s.create r).2.records = s.records) ∨
    s.records[r.key]? = none ∧ (s.create r).1 = .ok (fresh r) ∧
      (s.create r).2.records = s.records.insert r.key (fresh r) := by
  rw [create]
  generalize haccess : (if r.key ∈ s.records then _ else _) = access
  obtain ⟨fault, n, refused⟩ | granted := guarded_cases s "create" access
  · exact .inl ⟨fault, by rw [refused], by rw [refused]⟩
  rw [granted, ← haccess]
  by_cases taken : r.key ∈ s.records
  · exact .inl ⟨.alreadyExists r.key, by rw [if_pos taken], by rw [if_pos taken]⟩
  · rw [if_neg taken]
    exact .inr ⟨Std.ExtTreeMap.getElem?_eq_none taken, rfl, rfl⟩

/-- What an operation may make of all records. -/
structure Lawful (s : Store σ) (op : StoreOp σ) (t : Store σ) : Prop where
  filed : t.Filed
  becomes : ∀ key : Key, Becomes key op s.records[key]? t.records[key]?

theorem Lawful.of_eq {op : StoreOp σ} {t : Store σ} (filed : s.Filed)
    (same : t.records = s.records) : Lawful s op t :=
  ⟨filed.of_eq same, fun key => by rw [same]; exact .unchanged⟩

theorem Lawful.of_insert {op : StoreOp σ} {t : Store σ} {home : Key} {found : Option (Record σ)}
    {r : Record σ} (filed : s.Filed) (before : s.records[home]? = found)
    (becomes : Becomes home op found (some r)) (own : r.key = home)
    (put : t.records = s.records.insert r.key r) : Lawful s op t := by
  subst own
  refine ⟨filed.of_insert put, fun key => ?_⟩
  rw [put]
  by_cases here : r.key = key
  · subst here
    rw [Std.ExtTreeMap.getElem?_insert_self, before]
    exact becomes
  · rw [getElem?_insert_of_ne _ here]
    exact .unchanged

theorem Lawful.of_erase {op : StoreOp σ} {t : Store σ} {home : Key} {found : Option (Record σ)}
    (filed : s.Filed) (before : s.records[home]? = found) (becomes : Becomes home op found none)
    (dropped : t.records = s.records.erase home) : Lawful s op t := by
  refine ⟨filed.of_erase dropped, fun key => ?_⟩
  rw [dropped]
  by_cases here : home = key
  · subst here
    rw [Std.ExtTreeMap.getElem?_erase_self, before]
    exact becomes
  · rw [getElem?_erase_of_ne here]
    exact .unchanged

theorem create_lawful (filed : s.Filed) (r : Record σ) :
    Lawful s (.create r) (s.create r).2 := by
  obtain ⟨_, _, same⟩ | ⟨free, _, put⟩ := create_cases s r
  · exact .of_eq filed same
  · exact .of_insert filed free (.created rfl) rfl put

theorem applySpec_lawful (filed : s.Filed) (key : Key) (spec : σ) :
    Lawful s (.applySpec key spec) (s.applySpec key spec).2 := by
  rw [applySpec]
  obtain ⟨_, _, same⟩ | ⟨stored, found, granted⟩ :=
    guarded_withRecord_cases s "apply_spec" key _
  · exact .of_eq filed same
  have own : stored.key = key := filed _ _ found
  rw [granted]
  exact .of_insert filed found .respecified own rfl

theorem annotate_lawful (filed : s.Filed) (key : Key) (name value : String) :
    Lawful s (.annotate key name value) (s.annotate key name value).2 := by
  rw [annotate]
  obtain ⟨_, _, same⟩ | ⟨stored, found, granted⟩ :=
    guarded_withRecord_cases s "set_annotation" key _
  · exact .of_eq filed same
  have own : stored.key = key := filed _ _ found
  rw [granted]
  exact .of_insert filed found .annotated own rfl

theorem requestDeletion_lawful (filed : s.Filed) (now : Instant) (key : Key) :
    Lawful s (.requestDeletion key) (s.requestDeletion now key).2 := by
  rw [requestDeletion]
  obtain ⟨_, _, same⟩ | ⟨stored, found, granted⟩ :=
    guarded_withRecord_cases s "request_deletion" key _
  · exact .of_eq filed same
  rw [granted]
  have own : stored.key = key := filed _ _ found
  by_cases free : stored.metadata.finalizers = []
  · rw [if_pos (List.isEmpty_iff.mpr free)]
    exact .of_erase filed found (.dropped free) rfl
  rw [if_neg (mt List.isEmpty_iff.mp free)]
  by_cases noted : stored.metadata.isDeletionRequested
  · rw [if_pos noted]
    exact .of_insert filed found .unchanged own rfl
  · rw [if_neg noted]
    exact .of_insert filed found (.marked free) own rfl

theorem update_lawful (filed : s.Filed) (r : Record σ) (latest : Bool) :
    Lawful s (.update r latest) (s.update (if latest then s.rebased r else r)).2 := by
  refine ⟨writeWith_filed filed, fun key => ?_⟩
  rw [update_eq]
  obtain same | ⟨stored, own, found, current, _, after⟩ := writeWith_lookup filed "update"
    (if latest then s.rebased r else r) (rewritten (if latest then s.rebased r else r))
    (fun _ => rfl) key
  · rw [same]
    exact .unchanged
  have change : rewritten (if latest then s.rebased r else r) stored = rewritten r stored := by
    split
    · exact rewritten_rebased r stored
    · rfl
  rw [after, found, change]
  refine .updated ?_ fun fixed => by simpa [fixed] using current
  rw [← own]
  split
  · exact (rebased_key s r).symm
  · rfl

theorem updateStatus_lawful (filed : s.Filed) (r : Record σ) (latest : Bool) :
    Lawful s (.updateStatus r latest)
      (s.updateStatus (if latest then s.rebased r else r)).2 := by
  refine ⟨writeWith_filed filed, fun key => ?_⟩
  rw [updateStatus_eq]
  obtain same | ⟨stored, own, found, current, _, after⟩ := writeWith_lookup filed
    "update_status" (if latest then s.rebased r else r)
    (restated (if latest then s.rebased r else r)) (fun _ => rfl) key
  · rw [same]
    exact .unchanged
  have change : restated (if latest then s.rebased r else r) stored = restated r stored := by
    split
    · exact restated_rebased r stored
    · rfl
  rw [after, found, change]
  refine .statusUpdated ?_ fun fixed => by simpa [fixed] using current
  rw [← own]
  split
  · exact (rebased_key s r).symm
  · rfl

/-- Whatever is done with a store, each record becomes what the operation may make of it. -/
theorem perform_lawful (filed : s.Filed) (now : Instant) (op : StoreOp σ) :
    Lawful s op (s.perform now op).2 := by
  cases op with
  | create r => exact reply_snd .record (s.create r) ▸ create_lawful filed r
  | update r latest =>
      exact reply_snd .record (s.update (if latest then s.rebased r else r)) ▸
        update_lawful filed r latest
  | updateStatus r latest =>
      exact reply_snd .record (s.updateStatus (if latest then s.rebased r else r)) ▸
        updateStatus_lawful filed r latest
  | applySpec key spec =>
      exact reply_snd .record (s.applySpec key spec) ▸ applySpec_lawful filed key spec
  | annotate key name value =>
      exact reply_snd .record (s.annotate key name value) ▸ annotate_lawful filed key name value
  | requestDeletion key =>
      exact reply_snd (fun _ => .done) (s.requestDeletion now key) ▸
        requestDeletion_lawful filed now key
  | get key =>
      exact .of_eq filed ((congrArg records (reply_snd _ (s.get key))).trans (get_records s key))
  | readStatus key =>
      exact .of_eq filed
        ((congrArg records (reply_snd _ (s.readStatus key))).trans (readStatus_records s key))
  | contains | list | size | failNext => exact .of_eq filed rfl

end Steward.Store
