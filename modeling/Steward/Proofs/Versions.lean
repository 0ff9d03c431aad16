import Mathlib.Data.List.Basic
import Steward.Proofs.Records
import Steward.Proofs.Staleness

/-!
# Versions

The version is all that a writer knows of a record that others write too.  From the filing of a
record to its removal it grows by one with every change, so two looks at the record that show one
version show one record, and a write is let through exactly when it names the version that is
stored.  The generation grows with the changes of the specification alone; these are told by
comparing the written specifications, which for both sample kinds differ whenever the specifications
do.
-/

namespace Steward

variable {σ : Type}

/-! ## Written specifications -/

namespace Value

@[simp]
theorem lookup_unlessEmpty (empty : Bool) (name other : String) (v : Value) :
    (unlessEmpty empty name v).lookup other = if empty then none else [(name, v)].lookup other := by
  cases empty <;> rfl

/-- A field that is left out for the value `absent` tells its value. -/
theorem eq_of_field {α : Type} [DecidableEq α] (absent : α) {a b : α} {layout : α → Value}
    (injective : Function.Injective layout)
    (same : (if a = absent then none else some (layout a)) =
      if b = absent then none else some (layout b)) : a = b := by
  by_cases first : a = absent <;> by_cases second : b = absent
  · exact first.trans second.symm
  · simp [first, second] at same
  · simp [first, second] at same
  · simp only [first, second, if_false, Option.some.injEq] at same
    exact injective same

theorem text_injective : Function.Injective Value.text := fun _ _ => Value.text.inj

theorem texts_injective : Function.Injective texts := fun _ _ same =>
  List.map_injective_iff.mpr text_injective (Value.list.inj same)

end Value

theorem Plain.write_injective : Function.Injective (Layout.write : Plain → Value) := by
  rintro ⟨id, stringData, intData⟩ ⟨id', stringData', intData'⟩ same
  have field (name : String) := congrArg (List.lookup name) (Value.map.inj same)
  obtain rfl : id = id' := by simpa [List.lookup_cons] using field "id"
  obtain rfl : intData = intData' := by
    simpa [List.lookup_append, List.lookup_cons] using field "intData"
  obtain rfl : stringData = stringData' := Value.eq_of_field "" Value.text_injective
    (by simpa [List.lookup_append, List.lookup_cons] using field "stringData")
  rfl

theorem Linked.write_injective : Function.Injective (Layout.write : Linked → Value) := by
  rintro ⟨id, stringData, intData, owner, dependencies⟩
    ⟨id', stringData', intData', owner', dependencies'⟩ same
  have field (name : String) := congrArg (List.lookup name) (Value.map.inj same)
  obtain rfl : id = id' := by simpa [List.lookup_cons] using field "id"
  obtain rfl : intData = intData' := by
    simpa [List.lookup_append, List.lookup_cons] using field "intData"
  obtain rfl : stringData = stringData' := Value.eq_of_field "" Value.text_injective
    (by simpa [List.lookup_append, List.lookup_cons] using field "stringData")
  obtain rfl : owner = owner' := Value.eq_of_field "" Value.text_injective
    (by simpa [List.lookup_append, List.lookup_cons] using field "owner")
  obtain rfl : dependencies = dependencies' := Value.eq_of_field [] Value.texts_injective
    (by simpa [List.lookup_append, List.lookup_cons] using field "dependencies")
  rfl

/-! ## One operation -/

/-- The reply shows this record. -/
def StoreReply.Shows (r : Record σ) : StoreReply σ → Prop
  | .record shown => shown = r
  | .records all => r ∈ all
  | _ => False

/-- The operation is to give a record under `key` that has this specification another one. -/
def StoreOp.Respecifies (key : Key) (spec : σ) : StoreOp σ → Prop
  | .applySpec other _ => other = key
  | .update incoming _ => incoming.key = key ∧ incoming.spec ≠ spec
  | _ => False

namespace Store

variable {s : Store σ} {key : Key} {stored after : Record σ} {op : StoreOp σ}

/-- What an operation may make of the record under `key`, and what it may show of it: the version
grows by one with every change, and the generation by one with every change of the specification. -/
structure Advances (key : Key) (op : StoreOp σ) (reply : StoreReply σ) (stored after : Record σ) :
    Prop where
  shown : ∀ r : Record σ, reply.Shows r → r.key = key → r = after
  version : after = stored ∨
    after.metadata.resourceVersion = stored.metadata.resourceVersion + 1
  respecified : after.spec ≠ stored.spec →
    after.metadata.generation = stored.metadata.generation + 1
  generation : ¬ op.Respecifies key stored.spec →
    after.metadata.generation = stored.metadata.generation

variable [DecidableEq σ]

/-- A new specification comes with the next generation, and nothing else does. -/
theorem Becomes.generation_cases (becomes : Becomes key op (some stored) (some after)) :
    after.spec = stored.spec ∧ after.metadata.generation = stored.metadata.generation ∨
      op.Respecifies key stored.spec ∧
        after.metadata.generation = Counter.next stored.metadata.generation := by
  generalize found : some after = result at becomes
  cases becomes with
  | unchanged | annotated | marked =>
      cases found
      exact .inl ⟨rfl, rfl⟩
  | respecified =>
      cases found
      exact .inr ⟨rfl, rfl⟩
  | dropped => cases found
  | @updated _ incoming _ own =>
      split at found <;> cases found
      by_cases same : stored.spec = incoming.spec
      · exact .inl ⟨same.symm, if_pos same⟩
      · exact .inr ⟨⟨own, fun kept => same kept.symm⟩, if_neg same⟩
  | statusUpdated =>
      split at found <;> cases found
      exact .inl ⟨rfl, rfl⟩

/-- An operation advances a record that it neither drops nor files. -/
theorem Becomes.advances {reply : StoreReply σ}
    (becomes : Becomes key op (some stored) (some after)) (inOrder : stored.InOrder)
    (below : stored.metadata.resourceVersion < Counter.ceiling)
    (shown : ∀ r : Record σ, reply.Shows r → r.key = key → r = after) :
    Advances key op reply stored after where
  shown := shown
  version := becomes.eq_or_next.imp_right fun next => next.trans (Counter.next_of_lt below)
  respecified changed := by
    obtain ⟨same, _⟩ | ⟨_, next⟩ := becomes.generation_cases
    · exact absurd same changed
    · exact next.trans (Counter.next_of_lt (Nat.lt_of_le_of_lt inOrder.generation_le below))
  generation kept := by
    obtain ⟨_, same⟩ | ⟨respecifies, _⟩ := becomes.generation_cases
    · exact same
    · exact absurd respecifies kept

/-! ## What replies show -/

section

omit [DecidableEq σ]

/-- What is shown of a record is in the store, if the record is there at all. -/
def Honest (t : Store σ) (r : Record σ) : Prop :=
  ∀ stored : Record σ, t.records[r.key]? = some stored → r = stored

theorem honest_of_found {t : Store σ} {r : Record σ} (found : t.records[r.key]? = some r) :
    t.Honest r := fun _ there => Option.some.inj (found.symm.trans there)

/-- Only an access that succeeds shows something. -/
theorem shows_reply {α : Type} {ok : α → StoreReply σ} {result : Except Fault α × Store σ}
    {r : Record σ} (shows : (reply ok result).1.Shows r) :
    ∃ a, result.1 = .ok a ∧ (ok a).Shows r := by
  obtain ⟨_ | a, _⟩ := result
  · cases shows
  · exact ⟨a, rfl, shows⟩

theorem ok_of_shows {result : Except Fault (Record σ) × Store σ} {r : Record σ}
    (shows : (reply .record result).1.Shows r) : result.1 = .ok r := by
  obtain ⟨_, answer, rfl⟩ := shows_reply shows
  exact answer

theorem writeWith_honest {operation : String} {incoming r : Record σ}
    {change : Record σ → Record σ} (filed : s.Filed) (keeps : ∀ r, (change r).key = r.key)
    (answer : (s.writeWith operation incoming change).1 = .ok r) :
    (s.writeWith operation incoming change).2.Honest r := by
  obtain ⟨_, refused, _⟩ | ⟨stored, found, _, granted, records⟩ :=
    writeWith_cases s operation incoming change
  · cases refused.symm.trans answer
  cases granted.symm.trans answer
  have own : (change stored).key = incoming.key := (keeps stored).trans (filed _ _ found)
  intro there same
  rw [records] at same
  split at same
  · have gone : (s.records.erase incoming.key)[(bumped (change stored)).key]? = none :=
      own ▸ Std.ExtTreeMap.getElem?_erase_self
    cases gone.symm.trans same
  · exact Option.some.inj (Std.ExtTreeMap.getElem?_insert_self.symm.trans same)

theorem guarded_withRecord_honest {operation : String} {key : Key} {r : Record σ}
    {act : Record σ → Except Fault (Record σ) × Store σ}
    (puts : ∀ stored, s.records[key]? = some stored →
      ∃ updated, act stored = (.ok updated, s.put .modified updated))
    (answer : (s.guarded operation (s.withRecord key act)).1 = .ok r) :
    (s.guarded operation (s.withRecord key act)).2.Honest r := by
  obtain ⟨_, refused, _⟩ | ⟨stored, found, granted⟩ :=
    guarded_withRecord_cases s operation key act
  · cases refused.symm.trans answer
  obtain ⟨updated, put⟩ := puts stored found
  rw [granted, put] at answer ⊢
  cases answer
  exact honest_of_found Std.ExtTreeMap.getElem?_insert_self

end

/-- A reply shows records as they are stored after the operation. -/
theorem perform_honest (filed : s.Filed) (now : Instant) (op : StoreOp σ) {r : Record σ}
    (shows : (s.perform now op).1.Shows r) : (s.perform now op).2.Honest r := by
  cases op with
  | create incoming =>
      rw [perform, reply_snd]
      have answer := ok_of_shows shows
      obtain ⟨_, refused, _⟩ | ⟨_, granted, put⟩ := create_cases s incoming
      · cases refused.symm.trans answer
      · cases granted.symm.trans answer
        refine honest_of_found ?_
        rw [put]
        exact Std.ExtTreeMap.getElem?_insert_self
  | update incoming latest =>
      rw [perform, reply_snd]
      exact writeWith_honest filed (fun _ => rfl) (ok_of_shows shows)
  | updateStatus incoming latest =>
      rw [perform, reply_snd]
      exact writeWith_honest filed (fun _ => rfl) (ok_of_shows shows)
  | applySpec key spec =>
      rw [perform, reply_snd]
      exact guarded_withRecord_honest (fun _ _ => ⟨_, rfl⟩) (ok_of_shows shows)
  | annotate key name value =>
      rw [perform, reply_snd]
      exact guarded_withRecord_honest (fun _ _ => ⟨_, rfl⟩) (ok_of_shows shows)
  | get key =>
      obtain ⟨_ | shown, answer, same⟩ := shows_reply shows <;> cases same
      have found := get_ok answer
      have own : r.key = key := filed _ _ found.symm
      rw [perform, reply_snd]
      refine honest_of_found ?_
      rw [get_records, own]
      exact found.symm
  | list => exact honest_of_found ((mem_list_iff filed).mp shows)
  | requestDeletion key =>
      obtain ⟨_, _, ⟨⟩⟩ := shows_reply shows
  | readStatus key =>
      obtain ⟨_ | _, _, ⟨⟩⟩ := shows_reply shows
  | contains | size | failNext => cases shows

/-! ## One life of a record -/

/-- All along these operations the record under `key` is there, and before each of them its version
is below the ceiling. -/
def Lives (key : Key) (s : Store σ) : List (Instant × StoreOp σ) → Prop
  | [] => key ∈ s.records
  | (now, op) :: ops =>
      (∃ stored, s.records[key]? = some stored ∧
        stored.metadata.resourceVersion < Counter.ceiling) ∧
      Lives key (s.perform now op).2 ops

variable {ops more : List (Instant × StoreOp σ)}

theorem Lives.found (lives : s.Lives key ops) : ∃ stored, s.records[key]? = some stored := by
  cases ops with
  | nil => exact Option.isSome_iff_exists.mp (Std.ExtTreeMap.mem_iff_isSome_getElem?.mp lives)
  | cons =>
      obtain ⟨⟨stored, found, _⟩, _⟩ := lives
      exact ⟨stored, found⟩

/-- A life goes on after any of its operations. -/
theorem Lives.later (lives : s.Lives key (ops ++ more)) : (s.performAll ops).Lives key more := by
  induction ops generalizing s with
  | nil => exact lives
  | cons _ _ ih => exact ih lives.2

/-- A life was one before any of its operations. -/
theorem Lives.early (lives : s.Lives key (ops ++ more)) : s.Lives key ops := by
  induction ops generalizing s with
  | nil =>
      exact Std.ExtTreeMap.mem_iff_isSome_getElem?.mpr (Option.isSome_iff_exists.mpr lives.found)
  | cons _ _ ih => exact ⟨lives.1, ih lives.2⟩

/-- Every operation of a life advances the record. -/
theorem Lives.advances {now : Instant} (lives : s.Lives key ((now, op) :: ops))
    (inOrder : s.InOrder) :
    ∃ stored after, s.records[key]? = some stored ∧
      (s.perform now op).2.records[key]? = some after ∧
      Advances key op (s.perform now op).1 stored after := by
  obtain ⟨⟨stored, found, below⟩, further⟩ := lives
  obtain ⟨after, kept⟩ := further.found
  have becomes := (perform_lawful inOrder.filed now op).becomes key
  rw [found, kept] at becomes
  refine ⟨stored, after, found, kept,
    becomes.advances (inOrder.records key stored found) below fun r shows own => ?_⟩
  exact perform_honest inOrder.filed now op shows after (own ▸ kept)

/-- In the course of a life the version never decreases, and as long as it stays the record does. -/
theorem Lives.version (lives : s.Lives key ops) (inOrder : s.InOrder)
    (found : s.records[key]? = some stored)
    (kept : (s.performAll ops).records[key]? = some after) :
    stored.metadata.resourceVersion ≤ after.metadata.resourceVersion ∧
      (stored.metadata.resourceVersion = after.metadata.resourceVersion → stored = after) := by
  induction ops generalizing s stored with
  | nil =>
      cases found.symm.trans kept
      exact ⟨Nat.le_refl _, fun _ => rfl⟩
  | cons timed ops ih =>
      obtain ⟨_, next, here, there, advances⟩ := lives.advances inOrder
      cases found.symm.trans here
      have further := ih lives.2 (inOrder.perform timed.1 timed.2) there kept
      obtain rfl | grown := advances.version
      · exact further
      · -- The version has moved on, and it never comes back.
        have later : next.metadata.resourceVersion ≤ after.metadata.resourceVersion := further.1
        exact ⟨by omega, fun same => by omega⟩

omit [DecidableEq σ] in
/-- A write goes through exactly when it is based on the version that is stored. -/
theorem writeWith_ok_iff (sound : s.faults = 0) {incoming : Record σ}
    (found : s.records[incoming.key]? = some stored) (operation : String)
    (change : Record σ → Record σ) :
    (∃ w, (s.writeWith operation incoming change).1 = .ok w) ↔
      incoming.metadata.resourceVersion = stored.metadata.resourceVersion := by
  constructor
  · rintro ⟨w, granted⟩
    obtain ⟨_, refused, _⟩ | ⟨shown, there, based, _⟩ :=
      writeWith_cases s operation incoming change
    · cases refused.symm.trans granted
    · cases found.symm.trans there
      exact based.symm
  · intro current
    rw [writeWith_of_current sound incoming found current]
    exact ⟨_, rfl⟩

/-- The record under `key`, in a store that was empty once, from some instant on at which it is
there and for as long as it stays and its version is below the ceiling.  Every operation advances
it; of two looks at it the later one does not show a lesser version, and if they show one version
they show one record; and without a failure that is pending a write goes through exactly when it
names the version that is stored.  To compare specifications of the sample kinds as they are written
is to compare them. -/
theorem versions_tell_records (before ops : List (Instant × StoreOp σ))
    (lives : (({} : Store σ).performAll before).Lives key ops) :
    (∀ early now op later, ops = early ++ (now, op) :: later →
      ∃ stored after,
        (({} : Store σ).performAll (before ++ early)).records[key]? = some stored ∧
        (({} : Store σ).performAll (before ++ early ++ [(now, op)])).records[key]? = some after ∧
        Advances key op ((({} : Store σ).performAll (before ++ early)).perform now op).1
          stored after) ∧
    (∀ early more later (first second : Record σ), ops = early ++ more ++ later →
      (({} : Store σ).performAll (before ++ early)).records[key]? = some first →
      (({} : Store σ).performAll (before ++ early ++ more)).records[key]? = some second →
      first.metadata.resourceVersion ≤ second.metadata.resourceVersion ∧
      (first.metadata.resourceVersion = second.metadata.resourceVersion → first = second)) ∧
    (∀ early later (stored incoming : Record σ), ops = early ++ later → incoming.key = key →
      (({} : Store σ).performAll (before ++ early)).faults = 0 →
      (({} : Store σ).performAll (before ++ early)).records[key]? = some stored →
      ((∃ w, ((({} : Store σ).performAll (before ++ early)).update incoming).1 = .ok w) ↔
        incoming.metadata.resourceVersion = stored.metadata.resourceVersion) ∧
      ((∃ w, ((({} : Store σ).performAll (before ++ early)).updateStatus incoming).1 = .ok w) ↔
        incoming.metadata.resourceVersion = stored.metadata.resourceVersion)) ∧
    Function.Injective (Layout.write : Plain → Value) ∧
    Function.Injective (Layout.write : Linked → Value) := by
  have append (s : Store σ) (ops more : List (Instant × StoreOp σ)) :
      s.performAll (ops ++ more) = (s.performAll ops).performAll more := List.foldl_append
  have inOrder (ops : List (Instant × StoreOp σ)) : (({} : Store σ).performAll ops).InOrder :=
    inOrder_empty.performAll ops
  refine ⟨fun early now op later split => ?_,
    fun early more later first second split found kept => ?_,
    fun early later stored incoming _ own sound found => ?_,
    Plain.write_injective, Linked.write_injective⟩
  · subst split
    have there := lives.later
    rw [← append] at there
    rw [append _ (before ++ early)]
    exact there.advances (inOrder (before ++ early))
  · subst split
    have there := lives.early.later
    rw [← append] at there
    rw [append _ (before ++ early)] at kept
    exact there.version (inOrder (before ++ early)) found kept
  · subst own
    exact ⟨writeWith_ok_iff sound found _ _, writeWith_ok_iff sound found _ _⟩

open Scene in
/-- The deletion of the sample was asked for; then it is asked for again, and someone writes the
record. -/
theorem versions_tell_records_of_sample :
    (({} : Store Plain).performAll requestedOps).Lives sampleKey furtherOps ∧
    ∃ first second third,
      (({} : Store Plain).performAll requestedOps).records[sampleKey]? = some first ∧
      (({} : Store Plain).performAll (requestedOps ++ furtherOps.take 1)).records[sampleKey]? =
        some second ∧
      (({} : Store Plain).performAll (requestedOps ++ furtherOps)).records[sampleKey]? =
        some third ∧
      first = second ∧ third.metadata.resourceVersion = second.metadata.resourceVersion + 1 ∧
      third.metadata.generation = second.metadata.generation := by
  have lives : (({} : Store Plain).performAll requestedOps).Lives sampleKey furtherOps :=
    ⟨⟨_, rfl, by decide⟩, ⟨_, rfl, by decide⟩, Std.ExtTreeMap.mem_iff_isSome_getElem?.mpr rfl⟩
  obtain ⟨advances, tells, _⟩ := versions_tell_records requestedOps furtherOps lives
  have same := (tells [] (furtherOps.take 1) (furtherOps.drop 1) _ _ rfl rfl rfl).2 rfl
  obtain ⟨second, third, found, kept, advanced⟩ :=
    advances (furtherOps.take 1) sampleInstant (.update guardedSample true) [] rfl
  cases found
  cases kept
  exact ⟨lives, _, _, _, rfl, rfl, rfl, same, advanced.version.resolve_left nofun,
    advanced.generation fun respecifies => respecifies.2 rfl⟩

end Store

end Steward
