import Steward.Proofs.Scene

/-!
# Records in order

Six operations write records, and some of what a caller passes them is obeyed and some of it is
ignored.  Whatever is passed, a store that was empty once keeps its records in order: each lies under
its own key, none stays that is to be deleted and held by nothing, versions grow at least as fast as
generations, and the instant at which a deletion was asked for first is kept for as long as the
record is there.
-/

namespace Steward

variable {σ : Type}

/-- What the metadata of every record in a store have in common. -/
structure Record.InOrder (r : Record σ) : Prop where
  held : r.metadata.isDeletionRequested = true → r.metadata.finalizers ≠ []
  generation_pos : 1 ≤ r.metadata.generation
  generation_le : r.metadata.generation ≤ r.metadata.resourceVersion
  version_le : r.metadata.resourceVersion ≤ Counter.ceiling

namespace Counter

theorem next_le_ceiling (n : Nat) : next n ≤ ceiling := capped_le _

theorem next_pos (n : Nat) : 1 ≤ next n := by
  unfold next capped ceiling
  omega

theorem next_le_next {m n : Nat} (le : m ≤ n) : next m ≤ next n := by
  unfold next capped
  omega

end Counter

namespace Store

variable {s : Store σ} {key : Key} {stored after : Record σ}

/-! ## One record -/

section

variable {r : Record σ}

theorem inOrder_fresh (r : Record σ) : (fresh r).InOrder where
  held := nofun
  generation_pos := Nat.le_refl 1
  generation_le := Nat.le_refl 1
  version_le := show 1 ≤ Counter.ceiling by decide

/-- A write moves the version on, and may move the generation on with it. -/
theorem inOrder_bumped (inOrder : stored.InOrder)
    (held : r.metadata.isDeletionRequested = true → r.metadata.finalizers ≠ [])
    (version : r.metadata.resourceVersion = stored.metadata.resourceVersion)
    (generation : r.metadata.generation = stored.metadata.generation ∨
      r.metadata.generation = Counter.next stored.metadata.generation) : (bumped r).InOrder where
  held := held
  generation_pos := by
    change 1 ≤ r.metadata.generation
    obtain same | next := generation
    · rw [same]
      exact inOrder.generation_pos
    · rw [next]
      exact Counter.next_pos _
  generation_le := by
    change r.metadata.generation ≤ Counter.next r.metadata.resourceVersion
    rw [version]
    obtain same | next := generation
    · rw [same]
      exact Nat.le_trans inOrder.generation_le (Counter.le_next inOrder.version_le)
    · rw [next]
      exact Counter.next_le_next inOrder.generation_le
  version_le := Counter.next_le_ceiling _

end

variable [DecidableEq σ] {op : StoreOp σ}

theorem Becomes.inOrder {before : Option (Record σ)} (becomes : Becomes key op before (some after))
    (inOrder : ∀ stored, before = some stored → stored.InOrder) : after.InOrder := by
  generalize found : some after = result at becomes
  cases becomes with
  | unchanged => exact inOrder after found.symm
  | created =>
      cases found
      exact inOrder_fresh _
  | @respecified stored =>
      cases found
      have old := inOrder stored rfl
      exact inOrder_bumped old old.held rfl (.inr rfl)
  | @annotated stored =>
      cases found
      have old := inOrder stored rfl
      exact inOrder_bumped old old.held rfl (.inl rfl)
  | @marked stored _ held =>
      cases found
      exact inOrder_bumped (inOrder stored rfl) (fun _ => held) rfl (.inl rfl)
  | dropped => cases found
  | @updated stored incoming =>
      split at found <;> cases found
      next held =>
        refine inOrder_bumped (inOrder stored rfl) (fun asked free => held ⟨asked, free⟩) rfl ?_
        exact (ite_eq_or_eq _ _ _).imp id id
  | @statusUpdated stored incoming =>
      split at found <;> cases found
      next held =>
        exact inOrder_bumped (inOrder stored rfl) (fun asked free => held ⟨asked, free⟩) rfl
          (.inl rfl)

/-- Only a request for deletion touches the instant of the deletion. -/
theorem Becomes.deletionRequestedAt_eq (becomes : Becomes key op (some stored) (some after)) :
    after.metadata.deletionRequestedAt = stored.metadata.deletionRequestedAt ∨
      op = .requestDeletion key := by
  generalize found : some after = result at becomes
  cases becomes with
  | unchanged | respecified | annotated =>
      cases found
      exact .inl rfl
  | marked => exact .inr rfl
  | dropped => cases found
  | updated | statusUpdated =>
      split at found <;> cases found
      exact .inl rfl

omit [DecidableEq σ] in
/-- A further request for deletion writes the record back as it is, or drops it. -/
theorem requestDeletion_of_requested (filed : s.Filed) (now : Instant)
    (found : s.records[key]? = some stored)
    (requested : stored.metadata.isDeletionRequested = true) :
    (s.requestDeletion now key).2.records[key]? = some stored ∨
      (s.requestDeletion now key).2.records[key]? = none := by
  rw [requestDeletion]
  obtain ⟨_, _, same⟩ | ⟨shown, seen, granted⟩ :=
    guarded_withRecord_cases s "request_deletion" key _
  · exact .inl (by rw [same, found])
  rw [granted]
  cases seen.symm.trans found
  by_cases free : stored.metadata.finalizers.isEmpty = true
  · rw [if_pos free]
    exact .inr Std.ExtTreeMap.getElem?_erase_self
  · rw [if_neg free, if_pos requested]
    refine .inl ?_
    rw [← filed key stored found]
    exact Std.ExtTreeMap.getElem?_insert_self

/-- An operation leaves the instant of the deletion, once there is one, as it is. -/
theorem perform_deletionRequestedAt (filed : s.Filed) (now : Instant) (op : StoreOp σ)
    {asked : Instant} (found : s.records[key]? = some stored)
    (since : stored.metadata.deletionRequestedAt = some asked)
    (kept : (s.perform now op).2.records[key]? = some after) :
    after.metadata.deletionRequestedAt = some asked := by
  have becomes := (perform_lawful filed now op).becomes key
  rw [found, kept] at becomes
  obtain same | rfl := becomes.deletionRequestedAt_eq
  · rw [same, since]
  · have requested : stored.metadata.isDeletionRequested = true := by
      rw [Metadata.isDeletionRequested, since]
      rfl
    rw [perform, reply_snd] at kept
    obtain same | gone := requestDeletion_of_requested filed now found requested
    · cases same.symm.trans kept
      exact since
    · cases gone.symm.trans kept

/-! ## All records -/

/-- Carries out operations one after the other, each at its own instant. -/
def performAll (s : Store σ) (ops : List (Instant × StoreOp σ)) : Store σ :=
  ops.foldl (fun s (now, op) => (s.perform now op).2) s

/-- Every record lies under its own key and is in order. -/
structure InOrder (s : Store σ) : Prop where
  filed : s.Filed
  records : ∀ (key : Key) (r : Record σ), s.records[key]? = some r → r.InOrder

omit [DecidableEq σ] in
theorem inOrder_empty : InOrder ({} : Store σ) where
  filed := filed_empty
  records key r found := by simp at found

theorem InOrder.perform (inOrder : s.InOrder) (now : Instant) (op : StoreOp σ) :
    (s.perform now op).2.InOrder := by
  have lawful := perform_lawful inOrder.filed now op
  refine ⟨lawful.filed, fun key r found => ?_⟩
  have becomes := lawful.becomes key
  rw [found] at becomes
  exact becomes.inOrder (inOrder.records key)

theorem InOrder.performAll (inOrder : s.InOrder) (ops : List (Instant × StoreOp σ)) :
    (s.performAll ops).InOrder := by
  induction ops generalizing s with
  | nil => exact inOrder
  | cons timed ops ih => exact ih (inOrder.perform timed.1 timed.2)

/-- The instant of the deletion stays as it is for as long as the record is there. -/
theorem performAll_deletionRequestedAt (filed : s.Filed) {asked : Instant}
    (found : s.records[key]? = some stored)
    (since : stored.metadata.deletionRequestedAt = some asked) (ops : List (Instant × StoreOp σ))
    (stays : ∀ early later, ops = early ++ later → key ∈ (s.performAll early).records) :
    ∃ r, (s.performAll ops).records[key]? = some r ∧
      r.metadata.deletionRequestedAt = some asked := by
  induction ops generalizing s stored with
  | nil => exact ⟨stored, found, since⟩
  | cons timed ops ih =>
      obtain ⟨now, op⟩ := timed
      have here : key ∈ (s.perform now op).2.records := stays [(now, op)] ops rfl
      rw [Std.ExtTreeMap.mem_iff_isSome_getElem?] at here
      obtain ⟨after, kept⟩ := Option.isSome_iff_exists.mp here
      refine ih (perform_lawful filed now op).filed kept
        (perform_deletionRequestedAt filed now op found since kept) fun early later split => ?_
      exact stays ((now, op) :: early) later (by rw [split]; rfl)

/-! ## The list of all records -/

omit [DecidableEq σ] in
theorem list_eq (s : Store σ) : s.list = s.records.toList.map Prod.snd := by
  rw [list]
  obtain ⟨⟨records⟩⟩ := s.records
  induction records using Quotient.ind with
  | _ records =>
      change records.inner.values =
        (Std.DTreeMap.Internal.Impl.Const.toList records.inner).map Prod.snd
      rw [Std.DTreeMap.Internal.Impl.values_eq_map_snd,
        Std.DTreeMap.Internal.Impl.Const.toList_eq_toListModel_map, List.map_map]
      rfl

omit [DecidableEq σ] in
theorem mem_list_iff (filed : s.Filed) {r : Record σ} :
    r ∈ s.list ↔ s.records[r.key]? = some r := by
  rw [list_eq, List.mem_map]
  constructor
  · rintro ⟨⟨key, r⟩, member, rfl⟩
    have found := Std.ExtTreeMap.mem_toList_iff_getElem?_eq_some.mp member
    rwa [filed key r found]
  · intro found
    exact ⟨(r.key, r), Std.ExtTreeMap.mem_toList_iff_getElem?_eq_some.mpr found, rfl⟩

omit [DecidableEq σ] in
theorem list_ordered (filed : s.Filed) :
    (s.list.map Record.key).Pairwise fun a b => compare a b = .lt := by
  have keys : s.list.map Record.key = s.records.toList.map Prod.fst := by
    rw [list_eq, List.map_map]
    refine List.map_congr_left fun entry member => ?_
    exact filed _ _ (Std.ExtTreeMap.mem_toList_iff_getElem?_eq_some.mp member)
  rw [keys, Std.ExtTreeMap.map_fst_toList_eq_keys]
  exact Std.ExtTreeMap.ordered_keys

/-- Whatever is done with a store that was empty: each record lies under its own key, is held by a
finalizer if it is to be deleted, and has a generation from one up to its version; the instant at
which its deletion was asked for first stays as long as the record does; and the list of all records
has each of them once, in the order of the keys. -/
theorem records_stay_in_order (ops : List (Instant × StoreOp σ)) :
    (∀ (key : Key) (r : Record σ), (({} : Store σ).performAll ops).records[key]? = some r →
      r.key = key ∧
      ¬ (r.metadata.isDeletionRequested = true ∧ r.metadata.finalizers = []) ∧
      1 ≤ r.metadata.generation ∧ r.metadata.generation ≤ r.metadata.resourceVersion) ∧
    (∀ (key : Key) (r : Record σ) (asked : Instant) (more : List (Instant × StoreOp σ)),
      (({} : Store σ).performAll ops).records[key]? = some r →
      r.metadata.deletionRequestedAt = some asked →
      (∀ early later, more = early ++ later →
        key ∈ (({} : Store σ).performAll (ops ++ early)).records) →
      ∃ r', (({} : Store σ).performAll (ops ++ more)).records[key]? = some r' ∧
        r'.metadata.deletionRequestedAt = some asked) ∧
    ((({} : Store σ).performAll ops).list.map Record.key).Pairwise
      (fun a b => compare a b = .lt) ∧
    ∀ r, r ∈ (({} : Store σ).performAll ops).list ↔
      (({} : Store σ).performAll ops).records[r.key]? = some r := by
  have inOrder := inOrder_empty.performAll ops
  have append (more : List (Instant × StoreOp σ)) : ({} : Store σ).performAll (ops ++ more) =
      (({} : Store σ).performAll ops).performAll more := List.foldl_append
  refine ⟨fun key r found => ?_, fun key r asked more found since stays => ?_,
    list_ordered inOrder.filed, fun r => mem_list_iff inOrder.filed⟩
  · have ordered := inOrder.records key r found
    exact ⟨inOrder.filed key r found, fun ⟨requested, free⟩ => ordered.held requested free,
      ordered.generation_pos, ordered.generation_le⟩
  · rw [append]
    refine performAll_deletionRequestedAt inOrder.filed found since more fun early later split => ?_
    rw [← append]
    exact stays early later split

open Scene in
/-- A record is filed, and its deletion is asked for. -/
def requestedOps : List (Instant × StoreOp Plain) :=
  [(sampleInstant, .create guardedSample), (sampleInstant, .requestDeletion sampleKey)]

open Scene in
/-- The deletion is asked for again, and someone writes a record without an instant of deletion. -/
def furtherOps : List (Instant × StoreOp Plain) :=
  [({ sampleInstant with hour := 13 }, .requestDeletion sampleKey),
    (sampleInstant, .update guardedSample true)]

open Scene in
theorem records_stay_in_order_of_sample :
    ∃ r r', (({} : Store Plain).performAll requestedOps).records[sampleKey]? = some r ∧
      r.metadata.deletionRequestedAt = some sampleInstant ∧ r.key = sampleKey ∧
      r.metadata.generation ≤ r.metadata.resourceVersion ∧
      (({} : Store Plain).performAll (requestedOps ++ furtherOps)).records[sampleKey]? = some r' ∧
      r'.metadata.deletionRequestedAt = some sampleInstant := by
  have found : (({} : Store Plain).performAll requestedOps).records[sampleKey]? = some _ := rfl
  have stays (early later : List (Instant × StoreOp Plain)) (split : furtherOps = early ++ later) :
      sampleKey ∈ (({} : Store Plain).performAll (requestedOps ++ early)).records := by
    have cut : early = furtherOps.take early.length := by rw [split, List.take_left]
    rw [cut]
    generalize early.length = n
    match n with
    | 0 | 1 => exact Std.ExtTreeMap.mem_iff_isSome_getElem?.mpr rfl
    | n + 2 =>
        rw [List.take_of_length_le (Nat.le_add_left 2 n)]
        exact Std.ExtTreeMap.mem_iff_isSome_getElem?.mpr rfl
  obtain ⟨own, _, _, le⟩ := (records_stay_in_order requestedOps).1 sampleKey _ found
  obtain ⟨r', kept, since⟩ :=
    (records_stay_in_order requestedOps).2.1 sampleKey _ sampleInstant furtherOps found rfl stays
  exact ⟨_, r', found, rfl, own, le, kept, since⟩

end Store

end Steward
