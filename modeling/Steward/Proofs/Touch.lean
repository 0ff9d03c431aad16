import Steward.Proofs.Layout
import Steward.Proofs.Region
import Steward.Proofs.Visit

/-!
# What a reconcile may touch

A write of metadata sends back the whole record that was read, and a write of a status sends back
the record in hand.  Still only a few things change: the finalizer is put in place or taken away,
and the status moves on, with fields that the manager reported.  All else in the record stays as
it was, at every moment of the reconcile and however it ends, and no other record is written.
-/

namespace Steward

open Deed Controller Scene

variable {σ : Type} {c : Controller σ} {key : Key}

/-! ## Fields that the manager reported -/

/-- The fields that came with the answer to a call. -/
def Ended.payload? : Ended → Option Payload
  | ⟨.create, some (.ok ⟨_, payload⟩)⟩ => payload
  | ⟨.update, some (.ok ⟨_, payload⟩)⟩ => payload
  | ⟨.verify, some (.ok ⟨_, payload⟩)⟩ => payload
  | _ => none

/-- The manager reported a field of this name. -/
def Reported (ended : List Ended) (name : String) : Prop :=
  ∃ e ∈ ended, ∃ fields, e.payload? = some fields ∧ name ∈ fields

theorem payload_afterApply (operation : Mutation) (answer : Except String (Response ApplyResult)) :
    (Transition.afterApply operation answer).payload =
      match answer with
      | .ok response => response.payload
      | .error _ => none := by
  obtain message | ⟨_ | _ | _, payload⟩ := answer <;> rfl

namespace Controller

variable {permissions : Permissions} {r : Record σ} {deleting : Bool} {ended : List Ended}
variable {t : Transition}

/-- What is concluded carries no other fields than those of the last answer. -/
theorem Concludes.payload (concludes : c.Concludes permissions r deleting ended t)
    {fields : Payload} (carried : t.payload = some fields) :
    ∃ e ∈ ended, e.payload? = some fields := by
  cases concludes with
  | invalid | waits | denied | probeFailed => cases carried
  | created due answer | updated due answer =>
      rw [payload_afterApply] at carried
      refine ⟨_, List.mem_cons_self, ?_⟩
      cases answer with
      | error => cases carried
      | ok response => exact carried
  | settled due verdict => exact ⟨_, List.mem_cons_self, carried⟩
  | deleted due answer progress =>
      obtain message | _ | _ | _ := answer <;> cases progress <;> cases carried
  | polled due answer progress =>
      generalize DeletionProgress.ofProbe _ answer = reached at progress
      cases reached <;> cases progress <;> cases carried

end Controller

/-- A transition changes no other fields of the payload than those that it carries. -/
theorem Transition.payload_apply_of_not_mem {t : Transition} {name : String}
    (absent : ∀ fields, t.payload = some fields → name ∉ fields) (previous : Status) :
    (t.apply previous).payload[name]? = previous.payload[name]? := by
  rw [apply]
  cases carried : t.payload with
  | none => rfl
  | some fields =>
      rw [Status.payload_merge, Std.ExtTreeMap.getElem?_eq_none (absent fields carried),
        Option.none_or, ite_self]

/-! ## The record -/

/-- What a reconcile may make of the record `first`, after the calls that ended so. -/
structure Controller.Touched (c : Controller σ) (first : Record σ) (ended : List Ended)
    (w : Record σ) : Prop where
  key : w.key = first.key
  spec : w.spec = first.spec
  annotations : w.metadata.annotations = first.metadata.annotations
  generation : w.metadata.generation = first.metadata.generation
  deletionRequestedAt : w.metadata.deletionRequestedAt = first.metadata.deletionRequestedAt
  finalizers :
    w.metadata.finalizers = first.metadata.finalizers ∨
    (first.metadata.isDeletionRequested = false ∧
      c.definition.finalizer ∉ first.metadata.finalizers ∧
      w.metadata.finalizers = first.metadata.finalizers ++ [c.definition.finalizer]) ∨
    (first.metadata.isDeletionRequested = true ∧
      w.metadata.finalizers = first.metadata.finalizers.filter (· != c.definition.finalizer))
  payload : ∀ name, ¬ Reported ended name → w.status.payload[name]? = first.status.payload[name]?

namespace Controller

variable {first w : Record σ} {ended later : List Ended} {before : Option (Record σ)}
variable {deeds : List (Deed σ)}

theorem Touched.refl (c : Controller σ) (first : Record σ) (ended : List Ended) :
    c.Touched first ended first :=
  ⟨rfl, rfl, rfl, rfl, rfl, .inl rfl, fun _ _ => rfl⟩

theorem Touched.mono (touched : c.Touched first ended w) (kept : ended ⊆ later) :
    c.Touched first later w :=
  { touched with
    payload := fun name unreported => touched.payload name fun ⟨e, done, reports⟩ =>
      unreported ⟨e, kept done, reports⟩ }

theorem Touched.secured (stays : first.metadata.isDeletionRequested = false)
    (unguarded : ¬ c.Guards first) :
    c.Touched first ended (Store.bumped
      { first with metadata := first.metadata.addFinalizer c.definition.finalizer }) := by
  rw [Metadata.addFinalizer_of_lacks unguarded]
  have lacks : c.definition.finalizer ∉ first.metadata.finalizers :=
    fun listed => unguarded (List.contains_iff_mem.mpr listed)
  exact ⟨rfl, rfl, rfl, rfl, rfl, .inr (.inl ⟨stays, lacks, rfl⟩), fun _ _ => rfl⟩

theorem Touched.released (requested : first.metadata.isDeletionRequested = true) :
    c.Touched first ended (Store.bumped
      { first with metadata := first.metadata.removeFinalizer c.definition.finalizer }) :=
  ⟨rfl, rfl, rfl, rfl, rfl, .inr (.inr ⟨requested, rfl⟩), fun _ _ => rfl⟩

/-- A status that is concluded touches no other fields than those that were reported. -/
theorem Touched.restated {permissions : Permissions} {deleting : Bool} {t : Transition}
    (touched : c.Touched first ended w)
    (concludes : c.Concludes permissions w deleting ended t) :
    c.Touched first ended (Store.bumped { w with status := t.apply w.status }) where
  key := touched.key
  spec := touched.spec
  annotations := touched.annotations
  generation := touched.generation
  deletionRequestedAt := touched.deletionRequestedAt
  finalizers := touched.finalizers
  payload name unreported := by
    refine Eq.trans ?_ (touched.payload name unreported)
    refine t.payload_apply_of_not_mem (fun fields carried listed => ?_) w.status
    obtain ⟨e, done, reports⟩ := concludes.payload carried
    exact unreported ⟨e, done, fields, reports, listed⟩

/-- Only a record that is to be deleted, and that nobody but the engine kept, is dropped. -/
theorem Touched.dropped (touched : c.Touched first ended w) (dropped : w.landed = none) :
    first.metadata.isDeletionRequested = true ∧
      ∀ name ∈ first.metadata.finalizers, name = c.definition.finalizer := by
  rw [Record.landed] at dropped
  split at dropped
  case isFalse => cases dropped
  case isTrue drops =>
    rw [Bool.and_eq_true, List.isEmpty_iff] at drops
    obtain ⟨requested, none⟩ := drops
    refine ⟨(congrArg Option.isSome touched.deletionRequestedAt).symm.trans requested, ?_⟩
    obtain same | ⟨_, _, added⟩ | ⟨_, filtered⟩ := touched.finalizers
    · rw [← same, none]
      exact List.forall_mem_nil _
    · cases (List.append_eq_nil_iff.mp (added.symm.trans none)).2
    · intro name listed
      exact not_not.mp fun foreign =>
        List.filter_eq_nil_iff.mp (filtered.symm.trans none) name listed (bne_iff_ne.mpr foreign)

/-- What the deeds of a reconcile left of the record that was there before: one that was touched as
it may be, or nothing, if only the engine kept it from being dropped. -/
structure Leaves (c : Controller σ) (before : Option (Record σ)) (deeds : List (Deed σ)) :
    Prop where
  stored : ∀ w, left before deeds = some w →
    ∃ first, before = some first ∧ c.Touched first (endings deeds) w
  gone : ∀ first, before = some first → left before deeds = none →
    first.metadata.isDeletionRequested = true ∧
      ∀ name ∈ first.metadata.finalizers, name = c.definition.finalizer

theorem Leaves.nil (c : Controller σ) (before : Option (Record σ)) : c.Leaves before [] where
  stored w found := ⟨w, found, .refl c w _⟩
  gone first found none := by cases found.symm.trans none

/-- A record that was touched as it may be was written last. -/
theorem Leaves.of_landed {r : Record σ} (found : before = some first)
    (touched : c.Touched first (endings deeds) r) (lands : left before deeds = r.landed) :
    c.Leaves before deeds := by
  constructor
  · intro w stored
    have lands := lands.symm.trans stored
    rw [Record.landed] at lands
    split at lands <;> cases lands
    exact ⟨first, found, touched⟩
  · intro other same gone
    cases found.symm.trans same
    exact touched.dropped (lands.symm.trans gone)

/-- A deed that neither reads nor writes the record leaves it as it is. -/
theorem Leaves.quiet (leaves : c.Leaves before deeds) {deed : Deed σ}
    (nothing : deed.left? = none) : c.Leaves before (deed :: deeds) := by
  have same : left before (deed :: deeds) = left before deeds := by
    rw [left_cons, nothing, Option.getD_none]
  have kept : endings deeds ⊆ endings (deed :: deeds) :=
    List.filterMap_subset _ (List.subset_cons_self _ _)
  constructor
  · intro w found
    obtain ⟨first, stored, touched⟩ := leaves.stored w (same.symm.trans found)
    exact ⟨first, stored, touched.mono kept⟩
  · exact fun first stored gone => leaves.gone first stored (same.symm.trans gone)

/-- An access whose answer nobody disputes leaves the record touched as it may be. -/
theorem Leaves.asked (leaves : c.Leaves before deeds) {query : Query σ} {answer : query.Answer}
    (asks : (c.conduct key).asks deeds query) (decides : (c.discipline key).asks deeds query)
    (earlier : ∀ deed ∈ deeds, deed.Undisputed before)
    (undisputed : (Deed.asked query answer).Undisputed before) :
    c.Leaves before (.asked query answer :: deeds) := by
  cases query with
  | readStatus => exact leaves.quiet rfl
  | read k =>
      obtain fault | found := answer
      · exact leaves.quiet rfl
      -- The record is read first, so what is shown is what was there before.
      obtain ⟨rfl, _⟩ := asks
      obtain rfl : found = before := undisputed
      have same : left found [.asked (.read k) (.ok found)] = found := by
        rw [left_cons]
        cases found <;> rfl
      constructor
      · exact fun w stored => ⟨w, same.symm.trans stored, .refl c w _⟩
      · intro first stored gone
        cases stored.symm.trans (same.symm.trans gone)
  | writeMetadata incoming =>
      obtain fault | r := answer
      · exact leaves.quiet rfl
      obtain granted | ⟨_, _, refused⟩ := undisputed
      case inr => cases refused
      cases granted
      have lands : left before (.asked (.writeMetadata incoming)
          (.ok (Store.bumped incoming)) :: deeds) = (Store.bumped incoming).landed := left_cons ..
      -- The record that is sent back is the one that was read.
      obtain ⟨held, _, _, secures | releases⟩ := asks
      · have read : .asked (.read key) (.ok (some held)) ∈ deeds := by
          rw [secures.read]
          exact List.mem_singleton_self _
        obtain rfl := secures.written
        exact .of_landed (earlier _ read).symm (.secured secures.stays secures.unguarded) lands
      · obtain rfl := releases.written
        exact .of_landed (earlier _ releases.read).symm (.released releases.requested) lands
  | writeStatus incoming =>
      obtain fault | r := answer
      · exact leaves.quiet rfl
      obtain granted | ⟨_, _, refused⟩ := undisputed
      case inr => cases refused
      cases granted
      -- The record in hand is the stored one, and it was touched as it may be.
      obtain ⟨held, hand, _, records⟩ := asks
      obtain ⟨_, _, r, t, standing, concludes, rfl⟩ := decides
      obtain rfl := Option.some.inj (hand.symm.trans standing.hand)
      have lands := Record.landed_of_held records.guards.finalizers_ne_nil
      obtain ⟨first, found, touched⟩ := leaves.stored held (left_of_inHand hand lands)
      exact .of_landed found (touched.restated concludes) (left_cons ..)

end Controller

/-! ## Other records -/

/-- An access changes no record but the one that it writes. -/
theorem Store.Answers.others [DecidableEq σ] {s t : Store σ} {query : Query σ}
    {answer : query.Answer} (answers : s.Answers query answer t) (filed : s.Filed) {other : Key}
    (spares : ∀ incoming, query.written? = some incoming → other ≠ incoming.key) :
    t.records[other]? = s.records[other]? := by
  cases answers with
  | read k => rw [get_records]
  | readStatus => rfl
  | writeMetadata incoming =>
      have keeps : ∀ r, (rewritten incoming r).key = r.key := fun _ => rfl
      exact writeWith_of_ne filed keeps (spares incoming rfl)
  | writeStatus incoming =>
      have keeps : ∀ r, (restated incoming r).key = r.key := fun _ => rfl
      exact writeWith_of_ne filed keeps (spares incoming rfl)

/-- What a procedure asks changes no record of another kind. -/
theorem Site.answer_others {kind other : Kind} (ne : other ≠ kind) (query : Query kind.Spec)
    (site : Site) :
    ((Site.answer kind query site).2.store other).records = (site.store other).records := by
  cases query with
  | read | writeMetadata | writeStatus => exact congrArg Store.records (store_setStore_of_ne ne _)
  | readStatus key =>
      cases other with
      | plain => exact Store.readStatus_records _ key
      | linked => rfl

namespace Scene

variable [DecidableEq σ] {may : Custom σ} {start : Store σ}
variable {past : List (Happening σ)} {s : Scene σ}

theorem Visit.others (visit : Visit c key may start past s) (filed : start.Filed) {other : Key}
    (ne : other ≠ key) (spared : Alone other may) :
    s.store.records[other]? = start.records[other]? := by
  induction visit with
  | begin => rfl
  | outside visit step ih =>
      cases step with
      | outside now _ allowed =>
          exact (((Store.perform_lawful (visit.filed filed) now _).becomes other).of_spares
            (spared _ _ allowed)).trans ih
  | did visit step ih =>
      have keeps := visit.keeps filed (c.reconcile_upholds key)
      cases step with
      | ask answers =>
          refine (answers.others (visit.filed filed) fun incoming written => ?_).trans ih
          obtain ⟨_, _, _, rfl, _⟩ := c.of_written keeps.1 written
          exact ne
      | issue | finish | report => exact ih

/-- At every moment of a reconcile that is alone with its record, that record was touched as it may
be. -/
theorem Visit.leaves (visit : Visit c key may start past s) (filed : start.Filed)
    (alone : Alone key may) : c.Leaves start.records[key]? (sitting past) := by
  induction visit with
  | begin => exact .nil c _
  | outside _ _ ih => exact ih
  | did visit step ih =>
      have asks := visit.keeps filed (c.reconcile_upholds key)
      have decides := visit.keeps filed (c.reconcile_disciplined key)
      have earlier := (visit.alone filed alone).1
      have undisputed := ((visit.did step).alone filed alone).1 _ List.mem_cons_self
      cases step with
      | ask => exact ih.asked asks.1 decides.1 earlier undisputed
      | issue | finish | report => exact ih.quiet rfl

/-- A reconcile that is alone with its record, at any moment, whether it goes on or has ended, with
or without a fault.  The stored record, if there still is one, was stored before and differs from
what it was then only in its version, its finalizers and its status, and in the fields of its
status only in those that the manager reported in this reconcile.  The finalizers are the same, or
the engine's own was added at the end, where it was missing and no deletion was asked for, or it
was taken away, with the others left in their order, where a deletion was asked for.  A record that
is gone was to be deleted, and only the engine kept it.  Records under other keys that nobody
writes are as they were, and so are all records of the other kind. -/
theorem reconcile_touches_only (visit : Visit c key may start past s) (filed : start.Filed)
    (alone : Alone key may) :
    (∀ w, s.store.records[key]? = some w →
      ∃ first, start.records[key]? = some first ∧ c.Touched first (endings (sitting past)) w) ∧
    (∀ first, start.records[key]? = some first → s.store.records[key]? = none →
      first.metadata.isDeletionRequested = true ∧
        ∀ name ∈ first.metadata.finalizers, name = c.definition.finalizer) ∧
    (∀ other, other ≠ key → Alone other may →
      s.store.records[other]? = start.records[other]?) ∧
    ∀ (kind other : Kind), other ≠ kind → ∀ (query : Query kind.Spec) (site : Site),
      ((Site.answer kind query site).2.store other).records = (site.store other).records := by
  have leaves := visit.leaves filed alone
  rw [(visit.alone filed alone).2]
  exact ⟨leaves.stored, leaves.gone, fun other ne spared => visit.others filed ne spared,
    fun kind other ne query site => Site.answer_others ne query site⟩

/-- A record with a field of its own in the status, which names a finalizer twice and is to be
deleted. -/
def crowdedSample : Record Plain :=
  { sampleRecord with
    metadata :=
      { key := sampleKey
        finalizers := ["a.finalizers.com", "backup", "a.finalizers.com"]
        deletionRequestedAt := some sampleInstant }
    status := { operation := some .create, payload := (∅ : Payload).insert "zone" (.text "x") } }

/-- The resource is deleted, and the record loses both mentions of the finalizer and nothing else.
-/
theorem reconcile_touches_only_of_crowded :
    ∃ past s w,
      Visit sample sampleKey (fun _ op => op.Spares sampleKey) (.only crowdedSample) past s ∧
      (Store.only crowdedSample).Filed ∧
      Alone sampleKey (fun (_ : Store Plain) op => op.Spares sampleKey) ∧
      s.store.records[sampleKey]? = some w ∧ w.metadata.finalizers = ["backup"] ∧
      w.status.payload["zone"]? = some (.text "x") ∧
      ∃ first, (Store.only crowdedSample).records[sampleKey]? = some first ∧
        sample.Touched first (endings (sitting past)) w := by
  have read : Visit sample sampleKey (fun _ op => op.Spares sampleKey) (.only crowdedSample) _ _ :=
    .did .begin (.ask (.read _ sampleKey))
  have deleted := (read.did .issue).did (.finish .delete (some (.ok .succeeded)))
  have released := (deleted.did (.ask (.writeMetadata _ _))).did .report
  have alone : Alone sampleKey fun (_ : Store Plain) op => op.Spares sampleKey :=
    fun _ _ allowed => allowed
  obtain ⟨touches, _⟩ := reconcile_touches_only released (Store.only_filed _) alone
  obtain ⟨first, stored, touched⟩ := touches _ rfl
  exact ⟨_, _, _, released, Store.only_filed _, alone, rfl, rfl, rfl, first, stored, touched⟩

end Scene

end Steward
