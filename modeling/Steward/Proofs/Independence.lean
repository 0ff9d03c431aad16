import Steward.Proofs.Gate
import Steward.Proofs.Region

/-!
# Records that have nothing to do with each other

On a bench where no store fails and the simulated backend answers, a reconcile stays in the region
of its record: it is answered by what it finds there, and changes nothing elsewhere.  So of two
records neither of which refers to the other, and which stand for different resources, it does not
matter which one is reconciled first: each reconcile ends as it would have ended alone, and the
stores and the backend come out the same.
-/

namespace Steward

open Controller Scene

/-! ## The region of a record -/

namespace Kind

/-- The record has the plain record under the key as its owner or among its dependencies. -/
def Names (kind : Kind) (r : Record kind.Spec) (key : Key) : Prop :=
  ∃ refs, kind.definition.references r = .ok refs ∧ ∃ entry ∈ refs.all, entry.2.key = key

/-- Where a reconcile of the record has its business. -/
def region (kind : Kind) (r : Record kind.Spec) : Region kind where
  key := r.key
  refs := kind.Names r
  id := kind.definition.resourceId r.spec

theorem references_congr (kind : Kind) {r w : Record kind.Spec} (key : w.key = r.key)
    (spec : w.spec = r.spec) : kind.definition.references w = kind.definition.references r := by
  cases kind with
  | plain => rfl
  | linked => exact Linked.references_congr key spec

theorem region_admits {kind : Kind} {c : Controller kind.Spec}
    (sample : c.definition = kind.definition) (r : Record kind.Spec) :
    (kind.region r).scope.Admits c r where
  metadata _ own := own
  status _ own _ := own
  references w own spec refs references entry listed := by
    rw [sample, kind.references_congr own spec] at references
    exact ⟨refs, references, entry, listed, rfl⟩
  manager := by
    rw [resourceId, sample]
    rfl

end Kind

/-! ## A reconcile on the bench -/

namespace Bench

variable {kind : Kind} {d : Region kind} {b b' after : Bench} {r : Record kind.Spec}

/-- What is left of a procedure of either kind, carried to its end on the bench. -/
def carryFor {α : Type} (kind : Kind) (budget : Nat) (p : Procedure kind.Spec α) (b : Bench) :
    α × Bench :=
  p.run (surroundings kind) (fun call id _ b => b.perform budget call id) b

/-- The backend answers instead of a script, and no store fails. -/
structure Unaided (b : Bench) : Prop where
  unscripted : b.script = none
  calm : b.site.Calm

/-- The bench changed in the region at most. -/
structure Fares (d : Region kind) (b after : Bench) : Prop where
  unscripted : after.script = none
  controllers : ∀ kind, after.controller kind = b.controller kind
  bounds : d.Bounds b.site after.site

theorem Fares.unaided (fares : Fares d b after) : after.Unaided :=
  ⟨fares.unscripted, fares.bounds.calm⟩

theorem Fares.trans {later : Bench} (first : Fares d b after) (next : Fares d after later) :
    Fares d b later where
  unscripted := next.unscripted
  controllers kind := (next.controllers kind).trans (first.controllers kind)
  bounds := first.bounds.trans next.bounds

theorem perform_eq_await (unscripted : b.script = none) (budget : Nat) (call : Call) (id : String) :
    b.perform budget call id = ((b.site.await budget call id).1,
      { b with calls := b.calls.push (call, id), site := (b.site.await budget call id).2 }) := by
  rw [perform, Site.await]
  simp only [unscripted]
  split <;> rfl

/-- Carried to its end, a procedure that keeps to a region changes nothing outside. -/
theorem Unaided.fares {α : Type} {post : List (Deed kind.Spec) → α → Prop}
    {p : Procedure kind.Spec α} {deeds : List (Deed kind.Spec)} (unaided : b.Unaided)
    (within : p.Upholds d.scope.conduct post deeds) (budget : Nat) :
    Fares d b (b.carryFor kind budget p).2 := by
  obtain ⟨unscripted, calm⟩ := unaided
  induction p generalizing deeds b with
  | done => exact ⟨unscripted, fun _ => rfl, .refl calm⟩
  | ask query resume ih =>
      have bounds : d.Bounds b.site _ := Region.bounds_answer calm within.1
      have step : Fares d b (b.onSite (Site.answer kind query)).2 :=
        ⟨unscripted, fun kind => by cases kind <;> rfl, bounds⟩
      exact step.trans
        (ih _ (within.2 _ (Site.answer_fits calm.filed query)) step.unscripted bounds.calm)
  | call call id spec resume ih =>
      obtain rfl : id = d.id := within.1
      have bounds : d.Bounds b.site _ := Region.bounds_await calm budget call
      rw [carryFor, Procedure.run, perform_eq_await unscripted]
      have step : Fares d b { b with
          calls := b.calls.push (call, d.id), site := (b.site.await budget call d.id).2 } :=
        ⟨unscripted, fun kind => by cases kind <;> rfl, bounds⟩
      exact step.trans (ih _ (within.2 _) step.unscripted bounds.calm)
  | report event next ih =>
      have bounds : d.Bounds b.site _ := Region.bounds_note calm event
      have step : Fares d b { b with site := b.site.note event } :=
        ⟨unscripted, fun kind => by cases kind <;> rfl, bounds⟩
      exact step.trans (ih within step.unscripted bounds.calm)

/-- What comes of a procedure that keeps to a region depends on that region. -/
theorem Unaided.agrees {α : Type} {post : List (Deed kind.Spec) → α → Prop}
    {p : Procedure kind.Spec α} {deeds : List (Deed kind.Spec)} (unaided : b.Unaided)
    (unaided' : b'.Unaided) (within : p.Upholds d.scope.conduct post deeds)
    (agree : d.Agree b.site b'.site) (budget : Nat) :
    (b.carryFor kind budget p).1 = (b'.carryFor kind budget p).1 ∧
      d.Agree (b.carryFor kind budget p).2.site (b'.carryFor kind budget p).2.site := by
  obtain ⟨unscripted, calm⟩ := unaided
  obtain ⟨unscripted', calm'⟩ := unaided'
  induction p generalizing deeds b b' with
  | done => exact ⟨rfl, agree⟩
  | ask query resume ih =>
      have bounds : d.Bounds b.site _ := Region.bounds_answer calm within.1
      have bounds' : d.Bounds b'.site _ := Region.bounds_answer calm' within.1
      obtain ⟨answer, next⟩ := agree.answer calm calm' within.1
      change (carryFor kind budget (resume (Site.answer kind query b.site).1)
            { b with site := (Site.answer kind query b.site).2 }).1 =
          (carryFor kind budget (resume (Site.answer kind query b'.site).1)
            { b' with site := (Site.answer kind query b'.site).2 }).1 ∧
        d.Agree (carryFor kind budget (resume (Site.answer kind query b.site).1)
            { b with site := (Site.answer kind query b.site).2 }).2.site
          (carryFor kind budget (resume (Site.answer kind query b'.site).1)
            { b' with site := (Site.answer kind query b'.site).2 }).2.site
      rw [← answer]
      exact ih _ (within.2 _ (Site.answer_fits calm.filed query)) next unscripted bounds.calm
        unscripted' bounds'.calm
  | call call id spec resume ih =>
      obtain rfl : id = d.id := within.1
      have bounds : d.Bounds b.site _ := Region.bounds_await calm budget call
      have bounds' : d.Bounds b'.site _ := Region.bounds_await calm' budget call
      obtain ⟨answer, next⟩ := agree.await calm calm' budget call
      rw [carryFor, carryFor, Procedure.run, Procedure.run, perform_eq_await unscripted,
        perform_eq_await unscripted']
      simp only
      rw [← answer]
      exact ih _ (within.2 _) next unscripted bounds.calm unscripted' bounds'.calm
  | report event next ih =>
      have bounds : d.Bounds b.site _ := Region.bounds_note calm event
      have bounds' : d.Bounds b'.site _ := Region.bounds_note calm' event
      exact ih within (agree.note event) unscripted bounds.calm unscripted' bounds'.calm

/-! ## One record and then another -/

/-- What is left of a reconcile once the record was read. -/
def attend (b : Bench) (kind : Kind) (r : Record kind.Spec) : Except Fault Outcome × Bench :=
  b.carryFor kind (b.controller kind).intervals.operationTimeout
    ((b.controller kind).afterRead (.ok (some r)))

theorem reconcile_of_stored (unaided : b.Unaided)
    (stored : (b.site.store kind).records[r.key]? = some r) :
    b.reconcile kind r.key = ((b.attend kind r).1,
      { (b.attend kind r).2 with site := (b.attend kind r).2.site.advance 0 }) := by
  have read : (surroundings kind).answer (.read r.key) b = (.ok (some r), b) := by
    change b.onSite (Site.answer kind (.read r.key)) = _
    rw [onSite, Site.answer_read (unaided.calm.sound kind), stored]
  rw [reconcile, attend, carryFor, reconcile_eq_ask, Procedure.run, read]

theorem attend_within {c : Controller kind.Spec} (sample : c.definition = kind.definition)
    (r : Record kind.Spec) :
    Procedure.Upholds (kind.region r).scope.conduct anyEnd (c.afterRead (.ok (some r))) [] :=
  afterRead_within _ fun w same => by
    cases same
    exact Kind.region_admits sample r

/-- A reconcile of a stored record changes nothing outside of the record's region. -/
theorem Unaided.reconcile_fares (unaided : b.Unaided)
    (sample : (b.controller kind).definition = kind.definition)
    (stored : (b.site.store kind).records[r.key]? = some r) :
    Fares (kind.region r) b (b.reconcile kind r.key).2 := by
  have fares : Fares (kind.region r) b (b.attend kind r).2 :=
    unaided.fares (attend_within sample r) _
  rw [reconcile_of_stored unaided stored]
  refine fares.trans ⟨fares.unscripted, fun kind => by cases kind <;> rfl, ?_⟩
  exact Region.bounds_advance fares.bounds.calm (Nat.zero_le _)

/-- It ends the same on any bench that shows the same in that region, and leaves the same there. -/
theorem Unaided.reconcile_agrees (unaided : b.Unaided) (unaided' : b'.Unaided)
    (sample : (b.controller kind).definition = kind.definition)
    (same : b'.controller kind = b.controller kind)
    (agree : (kind.region r).Agree b'.site b.site)
    (stored : (b.site.store kind).records[r.key]? = some r) :
    (b'.reconcile kind r.key).1 = (b.reconcile kind r.key).1 ∧
      (kind.region r).Agree (b'.reconcile kind r.key).2.site (b.reconcile kind r.key).2.site := by
  have within := attend_within sample r
  obtain ⟨outcome, after⟩ : (b'.attend kind r).1 = (b.attend kind r).1 ∧
      (kind.region r).Agree (b'.attend kind r).2.site (b.attend kind r).2.site := by
    rw [attend, attend, same]
    exact unaided'.agrees unaided within agree _
  have fares : Fares (kind.region r) b (b.attend kind r).2 := unaided.fares within _
  have fares' : Fares (kind.region r) b' (b'.attend kind r).2 := by
    rw [attend, same]
    exact unaided'.fares within _
  rw [reconcile_of_stored unaided stored,
    reconcile_of_stored unaided' (agree.record.trans stored)]
  exact ⟨outcome, after.advance fares'.bounds.calm fares.bounds.calm (Nat.zero_le _)⟩

theorem resources_reconcile (b : Bench) (kind : Kind) (key : Key) (id : String) :
    (b.reconcile kind key).2.site.backend.resources[id]? =
      (b.reconcile kind key).2.site.landed? id :=
  Site.resources_advance _ 0 id

/-- Two stored records, of one kind under different keys or of different kinds, that stand for
different resources and neither of which is the owner or a dependency of the other: on a bench where
the simulated backend answers and no store fails, it does not matter which is reconciled first.
Each reconcile ends as it would have ended alone, and the records of both stores and what the
backend knows come out the same. -/
theorem reconciles_commute {other : Kind} {s : Record other.Spec} (unaided : b.Unaided)
    (sample : ∀ kind, (b.controller kind).definition = kind.definition)
    (stored : (b.site.store kind).records[r.key]? = some r)
    (stored' : (b.site.store other).records[s.key]? = some s)
    (keys : kind = other → r.key ≠ s.key)
    (ids : kind.definition.resourceId r.spec ≠ other.definition.resourceId s.spec)
    (free : other = .plain → ¬ kind.Names r s.key) (free' : kind = .plain → ¬ other.Names s r.key) :
    ((b.reconcile kind r.key).2.reconcile other s.key).1 = (b.reconcile other s.key).1 ∧
    ((b.reconcile other s.key).2.reconcile kind r.key).1 = (b.reconcile kind r.key).1 ∧
    (∀ k, (((b.reconcile kind r.key).2.reconcile other s.key).2.site.store k).records =
      (((b.reconcile other s.key).2.reconcile kind r.key).2.site.store k).records) ∧
    ((b.reconcile kind r.key).2.reconcile other s.key).2.site.backend.resources =
      ((b.reconcile other s.key).2.reconcile kind r.key).2.site.backend.resources := by
  have apart : (kind.region r).Apart (other.region s) :=
    { record := keys
      refs := fun plain key named same => by
        subst same
        exact free plain.symm named
      refs' := fun plain key named same => by
        subst same
        exact free' plain.symm named
      id := ids }
  have first := unaided.reconcile_fares (sample kind) stored
  have second := unaided.reconcile_fares (sample other) stored'
  have agree := first.bounds.agree apart.symm
  have agree' := second.bounds.agree apart
  obtain ⟨outcome, same⟩ := unaided.reconcile_agrees first.unaided (sample other)
    (first.controllers other) agree stored'
  obtain ⟨outcome', same'⟩ := unaided.reconcile_agrees second.unaided (sample kind)
    (second.controllers kind) agree' stored
  have next := first.unaided.reconcile_fares ((congrArg _ (first.controllers other)).trans
    (sample other)) (agree.record.trans stored')
  have next' := second.unaided.reconcile_fares ((congrArg _ (second.controllers kind)).trans
    (sample kind)) (agree'.record.trans stored)
  obtain ⟨records, resources⟩ :=
    Region.Bounds.diamond apart first.bounds second.bounds next.bounds next'.bounds same same'
  refine ⟨outcome, outcome', fun k => Std.ExtTreeMap.ext_getElem? fun key => records k key, ?_⟩
  refine Std.ExtTreeMap.ext_getElem? fun id => ?_
  rw [resources_reconcile, resources_reconcile]
  exact resources id

/-- A plain record whose resource lands as soon as it is created, and a linked one that waits for
another. -/
def mixedBench : Bench where
  site :=
    { plain := .only guardedSample
      linked := .only dependentSample
      backend := { completionDelay := some 0 } }
  plain := sample
  linked := linkedSample

theorem unaided_mixedBench : mixedBench.Unaided where
  unscripted := rfl
  calm :=
    { filed := fun kind => by cases kind <;> exact Store.only_filed _
      sound := fun kind => by cases kind <;> rfl
      simple := .inl rfl }

theorem reconciles_commute_of_mixed :
    (mixedBench.reconcile .plain sampleKey).1.toOption.bind Outcome.phase = some .inProgress ∧
    (mixedBench.reconcile .linked sampleKey).1.toOption.bind Outcome.phase = some .pending ∧
    ((mixedBench.reconcile .plain sampleKey).2.reconcile .linked sampleKey).1 =
      (mixedBench.reconcile .linked sampleKey).1 ∧
    ((mixedBench.reconcile .linked sampleKey).2.reconcile .plain sampleKey).1 =
      (mixedBench.reconcile .plain sampleKey).1 ∧
    (∀ k,
      (((mixedBench.reconcile .plain sampleKey).2.reconcile .linked sampleKey).2.site.store
        k).records =
      (((mixedBench.reconcile .linked sampleKey).2.reconcile .plain sampleKey).2.site.store
        k).records) ∧
    ((mixedBench.reconcile .plain sampleKey).2.reconcile .linked
        sampleKey).2.site.backend.resources =
      ((mixedBench.reconcile .linked sampleKey).2.reconcile .plain
        sampleKey).2.site.backend.resources := by
  refine ⟨by decide +kernel, by decide +kernel, ?_⟩
  have unnamed : ¬ Kind.linked.Names dependentSample sampleKey := by
    rintro ⟨refs, references, ⟨role, ref⟩, listed, same⟩
    obtain ⟨name, ⟨rfl, owned⟩ | needed, rfl⟩ :=
      (Linked.mem_references (r := dependentSample) references ref).mp ⟨role, listed⟩
    · exact owned rfl
    · cases List.mem_singleton.mp needed
      have named : "base" = "web" := congrArg Key.name same
      exact absurd named (by decide)
  have plain : (mixedBench.site.store .plain).records[guardedSample.key]? =
      some guardedSample := rfl
  have linked : (mixedBench.site.store .linked).records[dependentSample.key]? =
      some dependentSample := rfl
  have commute := reconciles_commute unaided_mixedBench (fun kind => by cases kind <;> rfl) plain
    linked nofun (by decide) nofun fun _ => unnamed
  exact commute

end Bench

end Steward
