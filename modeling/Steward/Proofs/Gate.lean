import Steward.Proofs.Calls
import Steward.Proofs.Bench

/-!
# The gate of references

A linked record has to wait as long as its owner or one of its dependencies is absent or did not
succeed, and nobody is called for it meanwhile.  A record that is to be deleted passes: its references
are not even looked up, and its deletion goes on as if it had none.
-/

namespace Steward

open Deed Controller Scene

namespace Linked

variable {r : Record Linked} {refs : References} {name : String}

/-- The record refers to the plain record of this name. -/
def Names (r : Record Linked) (name : String) : Prop :=
  (name = r.spec.owner ∧ name ≠ "") ∨ name ∈ r.spec.dependencies

/-- The plain record of this name is there and succeeded. -/
def Settled (plain : Store Plain) (r : Record Linked) (name : String) : Prop :=
  ∃ a, plain.records[(⟨r.key.ns, name⟩ : Key)]? = some a ∧ a.status.phase = some .succeeded

/-- A record that the given one refers to is absent or did not succeed. -/
def Waits (plain : Store Plain) (r : Record Linked) : Prop :=
  ∃ name, Names r name ∧ ¬ Settled plain r name

theorem references_of_empty (empty : "" ∈ r.spec.dependencies) :
    references r = .error (.invalidInstance r.key "dependency names must not be empty") :=
  if_pos empty

theorem not_empty_of_references (ok : references r = .ok refs) : "" ∉ r.spec.dependencies := by
  intro empty
  cases (references_of_empty empty).symm.trans ok

theorem empty_of_references {fault : Fault} (refused : references r = .error fault) :
    "" ∈ r.spec.dependencies := by
  apply Decidable.byContradiction
  intro valid
  rw [references, if_neg valid] at refused
  cases refused

theorem references_congr {w : Record Linked} (key : w.key = r.key) (spec : w.spec = r.spec) :
    references w = references r := by
  rw [references, references, key, spec]

/-- The references of a valid record are the records that it names, in its own namespace. -/
theorem mem_references (ok : references r = .ok refs) (ref : Reference) :
    (∃ role, (role, ref) ∈ refs.all) ↔
      ∃ name, Names r name ∧ ref = { key := ⟨r.key.ns, name⟩ } := by
  have valid := not_empty_of_references ok
  rw [references, if_neg valid] at ok
  cases ok
  simp only [References.all, List.mem_append, List.mem_map, Option.mem_toList, Prod.mk.injEq]
  constructor
  · rintro ⟨role, ⟨owner, found, rfl, rfl⟩ | ⟨_, ⟨name, listed, rfl⟩, rfl, rfl⟩⟩
    · split at found
      case isTrue => cases found
      case isFalse named =>
        cases found
        exact ⟨r.spec.owner, .inl ⟨rfl, named⟩, rfl⟩
    · exact ⟨name, .inr listed, rfl⟩
  · rintro ⟨name, ⟨rfl, named⟩ | listed, rfl⟩
    · exact ⟨.owner, .inl ⟨_, if_neg named, rfl, rfl⟩⟩
    · exact ⟨.dependency, .inr ⟨_, ⟨name, listed, rfl⟩, rfl, rfl⟩⟩

end Linked

/-- What the store of plain records shows of a reference. -/
theorem Linked.settled_iff {plain : Store Plain} {r : Record Linked} {role : Role} {name : String} :
    Linked.Settled plain r name ↔
      Readiness.ofStatus role { key := ⟨r.key.ns, name⟩ }
        (plain.records[(⟨r.key.ns, name⟩ : Key)]?.map Record.status) = none := by
  rw [Settled]
  cases plain.records[(⟨r.key.ns, name⟩ : Key)]? with
  | none => exact ⟨nofun, nofun⟩
  | some a =>
      simp [Readiness.ofStatus, Status.isSucceeded]

/-- The status of a record whose specification is refused. -/
def Linked.invalidStatus (previous : Status) : Status :=
  { previous with phase := some .failed, message := "dependency names must not be empty" }

/-- What the gate makes of `r`: it is `Pending` exactly if it is valid and waits, and an invalid one
fails. -/
structure Linked.Gated (plain : Store Plain) (r : Record Linked) (status : Status) : Prop where
  pending : status.phase = some .pending ↔ "" ∉ r.spec.dependencies ∧ Linked.Waits plain r
  invalid : "" ∈ r.spec.dependencies → status = Linked.invalidStatus r.status

/-! ## What the gate decides by -/

/-- A status that was looked up is the one in this store of plain records. -/
def Deed.Tells (plain : Store Plain) : Deed Linked → Prop
  | .asked (.readStatus key) (.ok found) => found = plain.records[key]?.map Record.status
  | _ => True

namespace Controller

variable {c : Controller Linked} {plain : Store Plain} {r w : Record Linked}
variable {deeds : List (Deed Linked)}

/-- A reference that was found unready is one that the record waits for. -/
theorem waits_of_unready {refs : References} {entry : Role × Reference} {found : Option Status}
    {readiness : Readiness} (content : ∀ deed ∈ deeds, deed.Tells plain)
    (references : Linked.references r = .ok refs) (listed : entry ∈ refs.all)
    (asked : .asked (.readStatus entry.2.key) (.ok found) ∈ deeds)
    (unready : Readiness.ofStatus entry.1 entry.2 found = some readiness) :
    Linked.Waits plain r := by
  obtain ⟨role, ref⟩ := entry
  obtain ⟨name, named, rfl⟩ := (Linked.mem_references references ref).mp ⟨role, listed⟩
  refine ⟨name, named, fun settled => ?_⟩
  rw [content _ asked] at unready
  cases (Linked.settled_iff.mp settled).symm.trans unready

/-- A record whose references were all found ready is valid and does not wait. -/
theorem Open.not_waits (ready : c.Open w deeds) (kind : c.definition.references = Linked.references)
    (content : ∀ deed ∈ deeds, deed.Tells plain) (same : Linked.references w = Linked.references r) :
    "" ∉ r.spec.dependencies ∧ ¬ Linked.Waits plain r := by
  obtain ⟨refs, references, answered⟩ := ready
  rw [kind, same] at references
  refine ⟨Linked.not_empty_of_references references, ?_⟩
  rintro ⟨name, named, unsettled⟩
  obtain ⟨role, listed⟩ := (Linked.mem_references references _).mpr ⟨name, named, rfl⟩
  obtain ⟨status, asked, met⟩ := answered _ listed
  have found : some status = _ := content _ asked
  cases stored : plain.records[(⟨r.key.ns, name⟩ : Key)]? with
  | none =>
      rw [stored] at found
      cases found
  | some a =>
      rw [stored] at found
      cases found
      exact unsettled ⟨a, stored, beq_iff_eq.mp met⟩

/-- Whatever a reconcile comes to with a record that is to stay, it is what the gate makes of it. -/
theorem Resolves.gated {permissions : Permissions} {t : Transition}
    (resolves : c.Resolves permissions w deeds t)
    (kind : c.definition.references = Linked.references) (content : ∀ deed ∈ deeds, deed.Tells plain)
    (same : Linked.references w = Linked.references r) :
    Linked.Gated plain r (t.apply r.status) := by
  have pending : (t.apply r.status).phase = some .pending ↔ t.phase = .pending := by
    rw [phase_apply, Option.some.injEq]
  cases resolves with
  | @invalid other reason invalid uncalled =>
      rw [kind, same] at invalid
      have empty := Linked.empty_of_references invalid
      rw [Linked.references_of_empty empty] at invalid
      cases invalid
      refine ⟨pending.trans ⟨nofun, fun waits => absurd empty waits.1⟩, fun _ => ?_⟩
      change ({ r.status with
          phase := some .failed
          message := clipped "dependency names must not be empty" } : Status) = _
      rw [show clipped "dependency names must not be empty" =
        "dependency names must not be empty" by decide +kernel]
      rfl
  | waits references listed found unready uncalled =>
      rw [kind, same] at references
      have valid := Linked.not_empty_of_references references
      have waits := waits_of_unready content references listed found unready
      exact ⟨pending.trans (iff_of_true rfl ⟨valid, waits⟩), fun empty => absurd empty valid⟩
  | drives ready concludes driven =>
      obtain ⟨valid, passes⟩ := ready.not_waits kind content same
      exact ⟨pending.trans (iff_of_false driven fun waits => passes waits.2),
        fun empty => absurd empty valid⟩

end Controller

/-- The first call of a deletion. -/
def firstOfDeletion (status : Status) : Call :=
  if status.operation = some .delete then .verify else .delete

theorem DeletionProgress.phase_of_transition? {progress : DeletionProgress} {t : Transition}
    (comes : progress.transition? = some t) : t.phase ≠ .pending := by
  cases progress <;> cases comes <;> exact nofun

theorem Due.first_of_deletion {status : Status} {ended : List Ended} {call : Call}
    (due : Due status true ended call) :
    call = firstOfDeletion status ∨ ∃ first ∈ ended, first.1 = firstOfDeletion status := by
  rw [firstOfDeletion]
  cases due with
  | delete unissued => exact .inl (if_neg unissued).symm
  | poll issued => exact .inl (if_pos issued).symm
  | reissue issued => exact .inr ⟨_, List.mem_cons_self, (if_pos issued).symm⟩

/-! ## The gate on the bench -/

namespace Bench

variable {b now : Bench} {key : Key} {may : Custom Linked} {past : List (Happening Linked)}

/-- The backend answers calls without touching a store. -/
theorem perform_of_unscripted (unscripted : b.script = none) (budget : Nat) (call : Call)
    (id : String) :
    (b.perform budget call id).2.script = none ∧
      (b.perform budget call id).2.site.plain = b.site.plain ∧
      (b.perform budget call id).2.site.linked = b.site.linked := by
  rw [perform]
  simp only [unscripted]
  split <;> exact ⟨rfl, rfl, rfl⟩

/-- How far a reconcile of a linked record got on the bench `b`, in the steps of a scene. -/
structure Follows (b : Bench) (key : Key) (may : Custom Linked) (now : Bench)
    (past : List (Happening Linked)) (rest : Procedure Linked (Except Fault Outcome)) : Prop where
  visit : Visit b.linked key may b.site.linked past ⟨now.site.linked, .running rest⟩
  content : ∀ deed ∈ sitting past, deed.Tells b.site.plain
  unscripted : now.script = none
  plain : now.site.plain.records = b.site.plain.records
  uncalled : Deed.calls (sitting past) = [] → now.calls = b.calls

theorem Follows.asked {query : Query Linked}
    {resume : query.Answer → Procedure Linked (Except Fault Outcome)}
    (follows : Follows b key may now past (.ask query resume)) :
    Follows b key may ((surroundings .linked).answer query now).2
      (.did (.asked query ((surroundings .linked).answer query now).1) :: past)
      (resume ((surroundings .linked).answer query now).1) := by
  obtain ⟨visit, content, unscripted, plain, uncalled⟩ := follows
  cases query with
  | read k =>
      exact ⟨visit.did (.ask (.read _ k)), List.forall_mem_cons.mpr ⟨trivial, content⟩, unscripted,
        plain, uncalled⟩
  | writeMetadata r =>
      exact ⟨visit.did (.ask (.writeMetadata _ r)), List.forall_mem_cons.mpr ⟨trivial, content⟩,
        unscripted, plain, uncalled⟩
  | writeStatus r =>
      exact ⟨visit.did (.ask (.writeStatus _ r)), List.forall_mem_cons.mpr ⟨trivial, content⟩,
        unscripted, plain, uncalled⟩
  | readStatus k =>
      refine ⟨visit.did (.ask (.readStatus _ k _ now.site.linked.faults)),
        List.forall_mem_cons.mpr ⟨?_, content⟩, unscripted,
        (now.site.plain.readStatus_records k).trans plain, uncalled⟩
      change (Deed.asked (.readStatus k) (now.site.plain.readStatus k).1).Tells b.site.plain
      cases told : (now.site.plain.readStatus k).1 with
      | error fault => exact trivial
      | ok found => exact (Store.readStatus_ok told).trans (by rw [plain])

theorem Follows.called {call : Call} {id : String} {spec : Linked}
    {resume : call.Ending → Procedure Linked (Except Fault Outcome)}
    (follows : Follows b key may now past (.call call id spec resume)) (budget : Nat) :
    Follows b key may (now.perform budget call id).2
      (.did (.ended call (now.perform budget call id).1) :: .did (.issued call id spec) :: past)
      (resume (now.perform budget call id).1) := by
  obtain ⟨unscripted, plain, linked⟩ := perform_of_unscripted follows.unscripted budget call id
  refine ⟨?_, List.forall_mem_cons.mpr ⟨trivial, List.forall_mem_cons.mpr ⟨trivial,
    follows.content⟩⟩, unscripted, (congrArg Store.records plain).trans follows.plain, ?_⟩
  · rw [linked]
    exact (follows.visit.did .issue).did (.finish call _)
  · intro none
    have called : call ∈ Deed.calls (sitting
        (.did (.ended call (now.perform budget call id).1) :: .did (.issued call id spec) :: past)) :=
      mem_calls.mpr ⟨id, spec, List.mem_cons_of_mem _ List.mem_cons_self⟩
    rw [none] at called
    cases called

theorem Follows.run {rest : Procedure Linked (Except Fault Outcome)}
    (follows : Follows b key may now past rest) (budget : Nat) :
    ∃ newer, Follows b key may
      (rest.run (surroundings .linked) (fun call id _ here => here.perform budget call id) now).2
      newer
      (.done (rest.run (surroundings .linked)
        (fun call id _ here => here.perform budget call id) now).1) := by
  -- By induction on what is left of the reconcile; every node is one step of the scene, a call two.
  induction rest generalizing now past with
  | done result => exact ⟨past, follows⟩
  | ask query resume ih => exact ih _ follows.asked
  | call k id spec resume ih => exact ih _ (follows.called budget)
  | report event next ih =>
      exact ih ⟨follows.visit.did .report, List.forall_mem_cons.mpr ⟨trivial, follows.content⟩,
        follows.unscripted, follows.plain, follows.uncalled⟩

/-- A reconcile of a linked record on the bench is a visit, and what it is told of references is what
the store of plain records contains. -/
theorem reconcile_follows (unscripted : b.script = none) (key : Key) (may : Custom Linked) :
    ∃ past, Follows b key may (b.reconcile .linked key).2 past
      (.done (b.reconcile .linked key).1) := by
  have begun : Follows b key may b [] (b.linked.reconcile key).run :=
    ⟨.begin, List.forall_mem_nil _, unscripted, rfl, fun _ => rfl⟩
  obtain ⟨past, follows⟩ := begun.run b.linked.intervals.operationTimeout
  exact ⟨past, follows.visit, follows.content, follows.unscripted, follows.plain, follows.uncalled⟩

end Bench

namespace Scene

variable {c : Controller Linked} {key : Key} {may : Custom Linked} {start store : Store Linked}
variable {plain : Store Plain} {past : List (Happening Linked)} {s : Scene Linked}
variable {r : Record Linked} {outcome : Outcome}

/-- Nobody is called for a record that is to stay and waits, or is invalid. -/
theorem Visit.uncalled_of_gate (visit : Visit c key may start past s) (filed : start.Filed)
    (alone : Alone key may) (stored : start.records[key]? = some r)
    (stays : r.metadata.isDeletionRequested = false)
    (kind : c.definition.references = Linked.references)
    (content : ∀ deed ∈ sitting past, deed.Tells plain)
    (shut : "" ∈ r.spec.dependencies ∨ Linked.Waits plain r) : calls (sitting past) = [] := by
  apply List.eq_nil_iff_forall_not_mem.mpr
  intro call called
  obtain ⟨older, first, w, kept, attends, clear, _⟩ := visit.called filed called
  obtain rfl := visit.shown filed alone stored (kept attends.read)
  have undisputed := (visit.alone filed alone).1
  obtain rfl := attends.origin.eq_secured attends.guards fun deed done => undisputed deed (kept done)
  cases clear with
  | removal requested => cases stays.symm.trans requested
  | upkeep _ ready =>
      obtain ⟨valid, passes⟩ := (ready.mono kept).not_waits kind content
        (Linked.references_congr (c.secured_key first) (c.secured_spec first))
      exact shut.elim valid passes

/-- A reconcile of a record that is to stay and is not cut short leaves what the gate makes of it. -/
theorem Visit.gated
    (visit : Visit c key may start past ⟨store, .running (.done (.ok outcome))⟩)
    (filed : start.Filed) (alone : Alone key may) (stored : start.records[key]? = some r)
    (stays : r.metadata.isDeletionRequested = false)
    (kind : c.definition.references = Linked.references)
    (content : ∀ deed ∈ sitting past, deed.Tells plain) :
    ∃ w, store.records[key]? = some w ∧ outcome.status = some w.status ∧
      Linked.Gated plain r w.status := by
  cases visit.settles filed alone stored with
  | free requested | released requested | deletes requested =>
      cases stays.symm.trans requested
  | @stays t w _ resolves after status =>
      refine ⟨w, after, rfl, ?_⟩
      rw [status]
      exact resolves.gated kind content
        (Linked.references_congr (c.secured_key r) (c.secured_spec r))

/-- No status is looked up for a record that is to be deleted. -/
theorem Visit.unconsulted (visit : Visit c key may start past s) (filed : start.Filed)
    (alone : Alone key may) (stored : start.records[key]? = some r)
    (requested : r.metadata.isDeletionRequested = true) (k : Key)
    (answer : Except Fault (Option Status)) :
    .asked (.readStatus k) answer ∉ sitting past := by
  intro asked
  obtain ⟨newer, older, history⟩ := List.append_of_mem asked
  obtain ⟨first, read, stays⟩ := visit.asked filed (c.reconcile_accounts key) history
  have kept : .asked (.read key) (.ok (some first)) ∈ sitting past := by
    rw [history]
    exact List.mem_append_right _ (List.mem_cons_of_mem _ read)
  obtain rfl := visit.shown filed alone stored kept
  cases stays.symm.trans requested

/-- The deletion of a record goes on: it is called for, if that is permitted. -/
theorem Visit.deletion_goes_on
    (visit : Visit c key may start past ⟨store, .running (.done (.ok outcome))⟩)
    (filed : start.Filed) (alone : Alone key may) (stored : start.records[key]? = some r)
    (requested : r.metadata.isDeletionRequested = true) :
    outcome.phase ≠ some .pending ∧
      (c.Guards r → c.PermitsDelete r →
        firstOfDeletion r.status ∈ calls (sitting past)) := by
  have called {call : Call} {before : List Ended} {ending : call.Ending}
      (due : Due r.status true before call)
      (all : endings (sitting past) = ⟨call, ending⟩ :: before) :
      firstOfDeletion r.status ∈ calls (sitting past) := by
    apply (visit.mem_calls_iff filed).mpr
    rw [all]
    obtain rfl | ⟨first, done, same⟩ := due.first_of_deletion
    · exact ⟨_, List.mem_cons_self, rfl⟩
    · exact ⟨first, List.mem_cons_of_mem _ done, same⟩
  generalize all : endings (sitting past) = ended at called
  cases visit.settles filed alone stored with
  | free _ unguarded => exact ⟨nofun, fun guards => absurd guards unguarded⟩
  | released _ _ vacant =>
      refine ⟨nofun, fun _ permitted => ?_⟩
      rw [all] at vacant
      cases vacant with
      | denied denied => exact absurd permitted denied
      | gone due => exact called due rfl
      | deleted due => exact called due rfl
  | deletes _ _ concludes _ status =>
      rw [all] at concludes
      have phase {t : Transition} (driven : t.phase ≠ .pending) {w : Record Linked}
          (status : w.status = t.apply r.status) : w.status.phase ≠ some .pending := by
        rw [status, phase_apply]
        exact fun pending => driven (Option.some.inj pending)
      cases concludes with
      | deleted due answer progress =>
          exact ⟨phase (DeletionProgress.phase_of_transition? progress) status,
            fun _ _ => called due rfl⟩
      | polled due answer progress =>
          exact ⟨phase (DeletionProgress.phase_of_transition? progress) status,
            fun _ _ => called due rfl⟩
  | stays stays => cases stays.symm.trans requested

/-- A reconcile that is alone with a linked record, in front of any store of plain records.  For a
record that is to stay: if it waits or is invalid, nobody is called, and unless the reconcile is cut
short, it leaves `Pending` exactly for a valid record that waits and a failure for an invalid one.
For a record that is to be deleted: no status is looked up, what follows the reading of the record is
the same whatever its references are, and the deletion goes on.  On a bench, where the statuses of
references come from the other store of the site, the gate is the same. -/
theorem references_gate (visit : Visit c key may start past s) (filed : start.Filed)
    (alone : Alone key may) (kind : c.definition.references = Linked.references)
    (content : ∀ deed ∈ sitting past, deed.Tells plain) (stored : start.records[key]? = some r) :
    (r.metadata.isDeletionRequested = false →
      ("" ∈ r.spec.dependencies ∨ Linked.Waits plain r → calls (sitting past) = []) ∧
      ∀ outcome, s.engine = .running (.done (.ok outcome)) →
        ∃ w, s.store.records[key]? = some w ∧ outcome.status = some w.status ∧
          Linked.Gated plain r w.status) ∧
    (r.metadata.isDeletionRequested = true →
      (∀ k answer, .asked (.readStatus k) answer ∉ sitting past) ∧
      (∀ references,
        ({ c with definition := { c.definition with references } } : Controller Linked).afterRead
          (.ok (some r)) = c.afterRead (.ok (some r))) ∧
      ∀ outcome, s.engine = .running (.done (.ok outcome)) →
        outcome.phase ≠ some .pending ∧
          (c.Guards r → c.PermitsDelete r → firstOfDeletion r.status ∈ calls (sitting past))) ∧
    ∀ (b : Bench) (k : Key) (q : Record Linked), b.script = none → b.site.linked.Filed →
      b.linked.definition.references = Linked.references → b.site.linked.records[k]? = some q →
      q.metadata.isDeletionRequested = false →
      ("" ∈ q.spec.dependencies ∨ Linked.Waits b.site.plain q →
        (b.reconcile .linked k).2.calls = b.calls) ∧
      ∀ outcome, (b.reconcile .linked k).1 = .ok outcome →
        ∃ w, (b.reconcile .linked k).2.site.linked.records[k]? = some w ∧
          outcome.status = some w.status ∧ Linked.Gated b.site.plain q w.status := by
  refine ⟨?_, ?_, ?_⟩
  · intro stays
    refine ⟨visit.uncalled_of_gate filed alone stored stays kind content, ?_⟩
    intro outcome ended
    obtain ⟨store, engine⟩ := s
    obtain rfl : engine = _ := ended
    exact visit.gated filed alone stored stays kind content
  · intro requested
    refine ⟨visit.unconsulted filed alone stored requested, fun references => ?_, ?_⟩
    · rw [afterRead, afterRead, if_pos requested, if_pos requested]
      rfl
    · intro outcome ended
      obtain ⟨store, engine⟩ := s
      obtain rfl : engine = _ := ended
      exact visit.deletion_goes_on filed alone stored requested
  · intro b k q unscripted filed kind stored stays
    have alone : Alone k (fun (_ : Store Linked) (_ : StoreOp Linked) => False) :=
      fun _ _ => False.elim
    obtain ⟨past, follows⟩ := Bench.reconcile_follows unscripted k fun _ _ => False
    constructor
    · intro shut
      exact follows.uncalled
        (follows.visit.uncalled_of_gate filed alone stored stays kind follows.content shut)
    · intro outcome ended
      have visit := follows.visit
      rw [ended] at visit
      exact visit.gated filed alone stored stays kind follows.content

/-- A linked record that succeeded and depends on another one. -/
def dependentSample : Record Linked where
  metadata := { key := sampleKey, finalizers := ["b.finalizers.com"] }
  spec := { id := "vm-b", dependencies := ["base"] }
  status := { phase := some .succeeded, operation := some .create }

/-- An invalid linked record that is to be deleted. -/
def invalidSample : Record Linked where
  metadata :=
    { key := sampleKey
      finalizers := ["b.finalizers.com"]
      deletionRequestedAt := some sampleInstant }
  spec := { id := "vm-b", dependencies := [""] }

def dependentBench : Bench where
  site := { linked := .only dependentSample }
  plain := sample
  linked := linkedSample

/-- A record retreats when what it depends on is gone, also on a bench, and an invalid one is deleted
nevertheless. -/
theorem references_gate_of_retreat :
    (∃ past s w,
      Visit linkedSample sampleKey (fun _ _ => False) (.only dependentSample) past s ∧
      (Store.only dependentSample).Filed ∧ calls (sitting past) = [] ∧
      s.store.records[sampleKey]? = some w ∧ w.status.phase = some .pending) ∧
    (∃ past s, Visit linkedSample sampleKey (fun _ _ => False) (.only invalidSample) past s ∧
      (Store.only invalidSample).Filed ∧
      (∀ k answer, .asked (.readStatus k) answer ∉ sitting past) ∧
      .delete ∈ calls (sitting past)) ∧
    (dependentBench.reconcile .linked sampleKey).2.calls = #[] ∧
    ∃ w, (dependentBench.reconcile .linked sampleKey).2.site.linked.records[sampleKey]? = some w ∧
      w.status.phase = some .pending := by
  have waits : Linked.Waits {} dependentSample :=
    ⟨"base", .inr List.mem_cons_self, fun ⟨_, found, _⟩ => by simp at found⟩
  refine ⟨?_, ?_, ?_⟩
  · have read : Visit linkedSample sampleKey (fun _ _ => False) (.only dependentSample) _ _ :=
      .did .begin (.ask (.read _ sampleKey))
    have checked := read.did (.ask (.readStatus _ _ (.ok none) 0))
    have ended := checked.did (.ask (.writeStatus _ _))
    obtain ⟨stays, _⟩ := references_gate ended (Store.only_filed _) (fun _ _ => False.elim) rfl
      (show ∀ deed ∈ sitting _, deed.Tells {} from List.forall_mem_cons.mpr ⟨trivial,
        List.forall_mem_cons.mpr ⟨rfl, List.forall_mem_singleton.mpr trivial⟩⟩) rfl
    obtain ⟨shut, settles⟩ := stays rfl
    obtain ⟨w, after, _, gated⟩ := settles _ rfl
    exact ⟨_, _, w, ended, Store.only_filed _, shut (.inr waits), after,
      gated.pending.mpr ⟨by decide, waits⟩⟩
  · have read : Visit linkedSample sampleKey (fun _ _ => False) (.only invalidSample) _ _ :=
      .did .begin (.ask (.read _ sampleKey))
    have deleted := (read.did .issue).did (.finish .delete (some (.ok .awaitingVerification)))
    have ended := deleted.did (.ask (.writeStatus _ _))
    obtain ⟨_, goes, _⟩ := references_gate ended (Store.only_filed _) (fun _ _ => False.elim) rfl
      (show ∀ deed ∈ sitting _, deed.Tells {} from List.forall_mem_cons.mpr ⟨trivial,
        List.forall_mem_cons.mpr ⟨trivial, List.forall_mem_cons.mpr ⟨trivial,
          List.forall_mem_singleton.mpr trivial⟩⟩⟩) rfl
    obtain ⟨unconsulted, _, settles⟩ := goes rfl
    exact ⟨_, _, ended, Store.only_filed _, unconsulted, (settles _ rfl).2 rfl rfl⟩
  · have begun : Visit linkedSample sampleKey (fun _ _ => False) (.only dependentSample) _ _ :=
      .begin
    obtain ⟨_, _, bench⟩ := references_gate begun (Store.only_filed _) (fun _ _ => False.elim) rfl
      (show ∀ deed ∈ sitting _, deed.Tells {} from List.forall_mem_nil _) rfl
    obtain ⟨shut, settles⟩ :=
      bench dependentBench sampleKey dependentSample rfl (Store.only_filed _) rfl rfl rfl
    obtain ⟨w, after, _, gated⟩ := settles _ rfl
    exact ⟨shut (.inr waits), w, after, gated.pending.mpr ⟨by decide, waits⟩⟩

end Scene

end Steward
