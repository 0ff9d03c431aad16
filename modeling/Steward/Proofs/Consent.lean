import Steward.Proofs.Calls
import Steward.Proofs.Bench

/-!
# Nothing is done without permission

An annotation grants the operations whose letters its text contains, and without it everything is
granted.  No reconcile issues an operation that the record it read does not grant.  Where a create or
an update is next and not granted, the record fails with a message that says so and keeps the rest of
its status; where a delete is not granted, the record is let go and its resource is left alone.
-/

namespace Steward

open Deed Controller Scene

variable {σ α : Type}

/-! ## What an annotation grants -/

def Mutation.letter : Mutation → Char
  | create => 'C'
  | update => 'U'
  | delete => 'D'

namespace Permissions

/-- The annotation `name` is absent, or its text contains the letter of the operation. -/
def Grants (annotations : Annotations) (name : String) (operation : Mutation) : Prop :=
  ∀ text, annotations[name]? = some text → operation.letter ∈ text.toList

theorem allows_ofText (text : String) (operation : Mutation) :
    (ofText text).allows operation = true ↔ operation.letter ∈ text.toList := by
  cases operation <;> exact List.contains_iff_mem

theorem allows_ofAnnotations (annotations : Annotations) (name : String) (operation : Mutation) :
    (ofAnnotations annotations name).allows operation = true ↔
      Grants annotations name operation := by
  rw [ofAnnotations, Grants]
  cases annotations[name]? with
  | none =>
      refine iff_of_true ?_ nofun
      cases operation <;> rfl
  | some text =>
      rw [granted, allows_ofText]
      constructor
      · rintro letter _ ⟨⟩
        exact letter
      · intro grants
        exact grants text rfl

theorem clipped_deniedMessage (operation : Mutation) :
    clipped (deniedMessage operation) = deniedMessage operation := by
  cases operation <;> decide +kernel

end Permissions

/-- A status whose operation was denied keeps its operation and its payload. -/
theorem Transition.apply_denied (operation : Mutation) (previous : Status) :
    (Transition.denied operation).apply previous =
      { previous with
        phase := some .failed
        message := Permissions.deniedMessage operation } := by
  change ({ previous with
      phase := some .failed
      message := clipped (Permissions.deniedMessage operation) } : Status) = _
  rw [Permissions.clipped_deniedMessage]

/-! ## What is next for a record that is to stay -/

namespace Controller

variable {c : Controller σ} {key : Key} {first r : Record σ} {deeds : List (Deed σ)}
variable {permissions : Permissions} {operation : Mutation}

/-- What is next for a record that is to stay: to create its resource, if no operation was issued yet
and no reference was found unready, or what the condition calls for that a probe found. -/
inductive Intends (c : Controller σ) (r : Record σ) (deeds : List (Deed σ)) :
    Mutation → Prop where
  | create {refs : References} (unissued : r.status.operation = none)
      (references : c.definition.references r = .ok refs)
      (ready : ∀ entry ∈ refs.all, ∀ status,
        .asked (.readStatus entry.2.key) (.ok status) ∈ deeds →
          Readiness.ofStatus entry.1 entry.2 status = none) : Intends c r deeds .create
  | probed {condition : Condition} {operation : Mutation} (found : Found deeds condition)
      (verdict : Verdict.ofCondition condition r.status.phase = .apply operation) :
      Intends c r deeds operation

/-- Whatever is due for a record is what is next for it. -/
theorem Intends.eq_call (intends : c.Intends r deeds operation) {before : List Ended} {call : Call}
    (due : Due r.status false before call)
    (probes : ∀ condition payload, ⟨.verify, some (.ok ⟨condition, payload⟩)⟩ ∈ endings deeds →
      ⟨.verify, some (.ok ⟨condition, payload⟩)⟩ ∈ before) : operation.call = call := by
  cases intends with
  | create unissued =>
      cases due with
      | create => rfl
      | probe issued | apply issued => exact absurd unissued issued
  | probed found verdict =>
      obtain ⟨payload, answered⟩ := found
      have seen := probes _ payload (mem_endings.mpr answered)
      cases due with
      | create | probe => cases seen
      | apply issued other =>
          cases List.mem_singleton.mp seen
          cases verdict.symm.trans other
          rfl

theorem Intends.not_settled (intends : c.Intends r deeds operation) {found : Condition}
    {payload : Option Payload} {t : Transition} (due : Due r.status false [] .verify)
    (probed : endings deeds = [⟨.verify, some (.ok ⟨found, payload⟩)⟩])
    (settles : Verdict.ofCondition found r.status.phase = .settle t) : False := by
  cases intends with
  | create unissued =>
      cases due with
      | probe issued => exact issued unissued
  | probed seen verdict =>
      obtain ⟨payload, answered⟩ := seen
      have answered := mem_endings.mpr answered
      rw [probed] at answered
      cases List.mem_singleton.mp answered
      cases verdict.symm.trans settles

/-- An operation that was issued is the one that was next, so the next one was not denied. -/
theorem Intends.unissued (intends : c.Intends r deeds operation)
    (denied : permissions.allows operation = false)
    (permitted : ∀ ended ∈ endings deeds, ∀ other : Mutation, other.call = ended.1 →
      permissions.allows other = true) (mutation : Mutation) {before : List Ended}
    {ending : mutation.call.Ending} (due : Due r.status false before mutation.call) :
    endings deeds ≠ ⟨mutation.call, ending⟩ :: before := by
  intro ended
  have next : operation.call = mutation.call := by
    refine intends.eq_call due fun condition payload done => ?_
    rw [ended] at done
    obtain same | earlier := List.mem_cons.mp done
    · exact absurd (congrArg Sigma.fst same).symm mutation.call_ne_verify
    · exact earlier
  obtain rfl := Mutation.call_injective next
  have allowed := permitted ⟨operation.call, ending⟩ (ended ▸ List.mem_cons_self) operation rfl
  cases allowed.symm.trans denied

/-- What is concluded of a record whose references are ready when the next operation is denied:
nothing but that. -/
theorem Intends.concludes_denied (intends : c.Intends r deeds operation)
    (denied : permissions.allows operation = false)
    (permitted : ∀ ended ∈ endings deeds, ∀ other : Mutation, other.call = ended.1 →
      permissions.allows other = true) {refs : References}
    (references : c.definition.references r = .ok refs) {t : Transition} (driven : t.phase ≠ .pending)
    (concludes : c.Concludes permissions r false (endings deeds) t) :
    t = .denied operation ∧ ∀ ended ∈ endings deeds, ended.1 = .verify := by
  have unissued (mutation : Mutation) {before : List Ended} {ending : mutation.call.Ending}
      (due : Due r.status false before mutation.call) :
      endings deeds ≠ ⟨mutation.call, ending⟩ :: before :=
    intends.unissued denied permitted mutation due
  generalize all : endings deeds = ended at concludes unissued
  cases concludes with
  | invalid invalid => cases references.symm.trans invalid
  | waits => exact absurd rfl driven
  | denied due =>
      have next := intends.eq_call due fun condition payload done => all ▸ done
      obtain rfl := Mutation.call_injective next
      exact ⟨rfl, due.probes⟩
  | created due => exact absurd rfl (unissued .create due)
  | updated due => exact absurd rfl (unissued .update due)
  | probeFailed due =>
      have next := intends.eq_call due fun condition payload done => by
        rw [all] at done
        cases List.mem_singleton.mp done
      exact absurd next operation.call_ne_verify
  | settled due verdict => exact (intends.not_settled due all verdict).elim

/-- What a reconcile comes to when the next operation is denied: nothing but that. -/
theorem Intends.denied (intends : c.Intends r deeds operation)
    (denied : permissions.allows operation = false)
    (permitted : ∀ ended ∈ endings deeds, ∀ other : Mutation, other.call = ended.1 →
      permissions.allows other = true) {t : Transition}
    (resolves : c.Resolves permissions r deeds t) :
    t = .denied operation ∧ ∀ ended ∈ endings deeds, ended.1 = .verify := by
  have uncalled (none : endings deeds = []) : ∀ condition, ¬ Found deeds condition := by
    rintro condition ⟨payload, answered⟩
    have answered := mem_endings.mpr answered
    rw [none] at answered
    cases answered
  cases resolves with
  | invalid invalid none =>
      cases intends with
      | create _ references => cases references.symm.trans invalid
      | probed found => exact absurd found (uncalled none _)
  | waits references listed found unready none =>
      cases intends with
      | create _ other ready =>
          cases other.symm.trans references
          cases (ready _ listed _ found).symm.trans unready
      | probed found => exact absurd found (uncalled none _)
  | drives ready concludes driven =>
      obtain ⟨refs, references, _⟩ := ready
      exact intends.concludes_denied denied permitted references driven concludes

end Controller

/-! ## Letting go without a call -/

namespace Procedure

/-- Nowhere in the procedure is the manager called. -/
def Uncalled : Procedure σ α → Prop
  | done _ => True
  | ask _ resume => ∀ answer, (resume answer).Uncalled
  | call _ _ _ _ => False
  | report _ next => next.Uncalled

end Procedure

theorem Controller.release_uncalled (c : Controller σ) (r : Record σ) :
    Procedure.Uncalled (c.release r).run := by
  rw [release]
  split
  · rintro (fault | stored) <;> exact trivial
  · exact trivial

theorem Controller.reconcileDeletion_uncalled {c : Controller σ} {r : Record σ}
    {permissions : Permissions} (guards : c.Guards r)
    (denied : permissions.allows .delete = false) :
    Procedure.Uncalled (c.reconcileDeletion r permissions).run := by
  have guards : r.metadata.hasFinalizer c.definition.finalizer = true := guards
  rw [reconcileDeletion, DeletionPlan.next, guards, denied]
  exact c.release_uncalled r

namespace Bench

/-- Nobody was called in between, and the clock did not move. -/
structure Untouched (before after : Bench) : Prop where
  calls : after.calls = before.calls
  clock : after.site.clock = before.site.clock
  backend : after.site.backend = before.site.backend

theorem Untouched.trans {b before after : Bench} (first : Untouched b before)
    (then_ : Untouched before after) : Untouched b after where
  calls := then_.calls.trans first.calls
  clock := then_.clock.trans first.clock
  backend := then_.backend.trans first.backend

theorem answer_untouched (kind : Kind) (query : Query kind.Spec) (b : Bench) :
    Untouched b ((surroundings kind).answer query b).2 := by
  cases kind <;> cases query <;> exact ⟨rfl, rfl, rfl⟩

/-- A procedure that calls nobody leaves the backend of the bench as it is. -/
theorem run_untouched (kind : Kind)
    (perform : (call : Call) → String → kind.Spec → Bench → call.Ending × Bench)
    {p : Procedure kind.Spec α} (uncalled : p.Uncalled) (b : Bench) :
    Untouched b (p.run (surroundings kind) perform b).2 := by
  induction p generalizing b with
  | done a => exact ⟨rfl, rfl, rfl⟩
  | call => exact uncalled.elim
  | report event next ih =>
      have noted : Untouched b ((surroundings kind).note event b) := ⟨rfl, rfl, rfl⟩
      exact noted.trans (ih uncalled _)
  | ask query resume ih => exact (answer_untouched kind query b).trans (ih _ (uncalled _) _)

/-- A record whose deletion is denied is let go without a call.  What becomes of the backend
meanwhile is what time makes of it: nothing, unless something falls due at this instant. -/
theorem reconcile_of_denied (b : Bench) (kind : Kind) (key : Key) {r : Record kind.Spec}
    (stored : (b.site.store kind).records[key]? = some r)
    (requested : r.metadata.isDeletionRequested = true) (guards : (b.controller kind).Guards r)
    (denied : ((b.controller kind).permissions r).allows .delete = false) :
    (b.reconcile kind key).2.calls = b.calls ∧
      (b.reconcile kind key).2.site.backend = (b.site.advance 0).backend ∧
      ((∀ timer ∈ b.site.backend.timers, b.site.clock < timer.due) →
        (b.reconcile kind key).2.site.backend = b.site.backend) := by
  -- The store shows the record or fails, and in neither case is anybody called.
  have uncalled : ((b.controller kind).afterRead
      ((surroundings kind).answer (.read key) b).1).Uncalled := by
    have asked : ((surroundings kind).answer (.read key) b).1 =
        ((b.site.store kind).get key).1 := by
      cases kind <;> rfl
    rw [asked]
    cases shown : ((b.site.store kind).get key).1 with
    | error fault => exact trivial
    | ok found =>
        obtain rfl := (Store.get_ok shown).trans stored
        rw [Controller.afterRead, if_pos requested]
        exact Controller.reconcileDeletion_uncalled guards denied
  have untouched : Untouched b (((b.controller kind).reconcile key).run.run (surroundings kind)
      (fun call id _ here => here.perform (b.controller kind).intervals.operationTimeout call id)
      b).2 := by
    rw [Controller.reconcile_eq_ask]
    exact (answer_untouched kind (.read key) b).trans (run_untouched kind _ uncalled _)
  have backend : (b.reconcile kind key).2.site.backend = (b.site.advance 0).backend :=
    congrArg₂ Backend.fire untouched.backend untouched.clock
  exact ⟨untouched.calls, backend, fun later => backend.trans (Backend.fire_of_not_due later)⟩

end Bench

/-! ## Every reconcile asks for permission -/

namespace Scene

open Permissions

variable [DecidableEq σ] {c : Controller σ} {key : Key} {may : Custom σ} {start store : Store σ}
variable {past : List (Happening σ)} {s : Scene σ} {first : Record σ} {outcome : Outcome}
variable {operation : Mutation}

/-- Whatever was called, the record that was read permits. -/
theorem Visit.permitted (visit : Visit c key may start past s) (filed : start.Filed)
    (shown : ∀ other, .asked (.read key) (.ok (some other)) ∈ sitting past → other = first)
    (called : operation.call ∈ calls (sitting past)) :
    (c.permissions first).allows operation = true := by
  obtain ⟨older, other, r, kept, attends, _, _, permitted⟩ := visit.called filed called
  obtain rfl := shown other (kept attends.read)
  exact permitted operation rfl

/-- Nobody is called for a record that is to be deleted without permission. -/
theorem Visit.uncalled (visit : Visit c key may start past s) (filed : start.Filed)
    (shown : ∀ other, .asked (.read key) (.ok (some other)) ∈ sitting past → other = first)
    (requested : first.metadata.isDeletionRequested = true)
    (denied : (c.permissions first).allows .delete = false) : calls (sitting past) = [] := by
  apply List.eq_nil_iff_forall_not_mem.mpr
  intro call called
  obtain ⟨older, other, r, kept, attends, clear, _⟩ := visit.called filed called
  obtain rfl := shown other (kept attends.read)
  cases clear with
  | removal _ permitted => cases permitted.symm.trans denied
  | upkeep stays => cases stays.symm.trans requested

/-- The next operation is denied: nothing but a probe is called, and the record fails. -/
theorem Visit.fails_of_denied
    (visit : Visit c key may start past ⟨store, .running (.done (.ok outcome))⟩)
    (filed : start.Filed) (alone : Alone key may) (stored : start.records[key]? = some first)
    (stays : first.metadata.isDeletionRequested = false)
    (intends : c.Intends (c.secured first) (sitting past) operation)
    (denied : (c.permissions first).allows operation = false) :
    (∀ call ∈ calls (sitting past), call = .verify) ∧
      ∃ w, store.records[key]? = some w ∧ outcome.status = some w.status ∧
        w.status =
          { first.status with phase := some .failed, message := deniedMessage operation } := by
  cases visit.settles filed alone stored with
  | free requested | released requested | deletes requested =>
      cases stays.symm.trans requested
  | stays _ resolves after status =>
      have permitted : ∀ ended ∈ endings (sitting past), ∀ other : Mutation, other.call = ended.1 →
          (c.permissions first).allows other = true := by
        intro ended done other same
        apply visit.permitted filed fun _ read => visit.shown filed alone stored read
        exact (visit.mem_calls_iff filed).mpr ⟨ended, done, same.symm⟩
      obtain ⟨rfl, probes⟩ := intends.denied denied permitted resolves
      refine ⟨fun call called => ?_, _, after, rfl, status.trans (Transition.apply_denied _ _)⟩
      obtain ⟨ended, done, rfl⟩ := (visit.mem_calls_iff filed).mp called
      exact probes ended done

/-- Deleting is denied: nobody is called, and the record loses the finalizer. -/
theorem Visit.released_of_denied
    (visit : Visit c key may start past ⟨store, .running (.done (.ok outcome))⟩)
    (filed : start.Filed) (alone : Alone key may) (stored : start.records[key]? = some first)
    (requested : first.metadata.isDeletionRequested = true) (guards : c.Guards first)
    (uncalled : calls (sitting past) = []) :
    outcome = .finished ∧
      store.records[key]? = (Store.bumped
        { first with
          metadata := first.metadata.removeFinalizer c.definition.finalizer }).landed := by
  have none : endings (sitting past) = [] := by
    apply List.eq_nil_iff_forall_not_mem.mpr
    intro ended done
    have called := (visit.mem_calls_iff filed).mpr ⟨ended, done, rfl⟩
    rw [uncalled] at called
    cases called
  cases visit.settles filed alone stored with
  | free _ unguarded => exact absurd guards unguarded
  | released _ _ _ freed => exact ⟨rfl, freed⟩
  | deletes _ _ concludes =>
      rw [none] at concludes
      cases concludes
  | stays stays => cases stays.symm.trans requested

/-- Whatever happens meanwhile, an operation is issued only if the record that was read grants it.
A reconcile that is alone with its record and is not cut short fails a record whose next operation is
denied, keeping its operation and its payload, and it lets a record go whose deletion is denied,
without a call.  On a bench, the backend then holds what it would hold anyway. -/
theorem permissions_respected (visit : Visit c key may start past s) (filed : start.Filed) :
    (∀ newer operation id spec older,
      sitting past = newer ++ .issued (Mutation.call operation) id spec :: older →
      ∃ first, .asked (.read key) (.ok (some first)) ∈ older ∧
        Grants first.metadata.annotations c.permissionKey operation) ∧
    (∀ first operation outcome, Alone key may → start.records[key]? = some first →
      first.metadata.isDeletionRequested = false → s.engine = .running (.done (.ok outcome)) →
      c.Intends (c.secured first) (sitting past) operation →
      ¬ Grants first.metadata.annotations c.permissionKey operation →
      (∀ call ∈ calls (sitting past), call = .verify) ∧
        ∃ w, s.store.records[key]? = some w ∧ outcome.status = some w.status ∧
          w.status =
            { first.status with phase := some .failed, message := deniedMessage operation }) ∧
    (∀ first, Alone key may → start.records[key]? = some first →
      first.metadata.isDeletionRequested = true → c.Guards first →
      ¬ Grants first.metadata.annotations c.permissionKey .delete →
      calls (sitting past) = [] ∧
        ∀ outcome, s.engine = .running (.done (.ok outcome)) → outcome = .finished ∧
          s.store.records[key]? = (Store.bumped
            { first with
              metadata := first.metadata.removeFinalizer c.definition.finalizer }).landed) ∧
    ∀ (b : Bench) (kind : Kind) (k : Key) (r : Record kind.Spec),
      (b.site.store kind).records[k]? = some r → r.metadata.isDeletionRequested = true →
      (b.controller kind).Guards r →
      ¬ Grants r.metadata.annotations (b.controller kind).permissionKey .delete →
      (b.reconcile kind k).2.calls = b.calls ∧
        (b.reconcile kind k).2.site.backend = (b.site.advance 0).backend ∧
        ((∀ timer ∈ b.site.backend.timers, b.site.clock < timer.due) →
          (b.reconcile kind k).2.site.backend = b.site.backend) := by
  have refused {τ : Type} {d : Controller τ} {r : Record τ} {operation : Mutation}
      (denied : ¬ Grants r.metadata.annotations d.permissionKey operation) :
      (d.permissions r).allows operation = false :=
    Bool.eq_false_iff.mpr (mt (allows_ofAnnotations _ _ _).mp denied)
  refine ⟨?_, ?_, ?_, ?_⟩
  · intro newer operation id spec older history
    obtain ⟨first, r, _, attends, _, _, permitted⟩ := visit.due filed history
    exact ⟨first, attends.read, (allows_ofAnnotations _ _ _).mp (permitted operation rfl)⟩
  · intro first operation outcome alone stored stays ended intends denied
    obtain ⟨store, engine⟩ := s
    obtain rfl : engine = _ := ended
    exact visit.fails_of_denied filed alone stored stays intends (refused denied)
  · intro first alone stored requested guards denied
    have uncalled := visit.uncalled filed
      (fun _ read => visit.shown filed alone stored read) requested (refused denied)
    refine ⟨uncalled, fun outcome ended => ?_⟩
    obtain ⟨store, engine⟩ := s
    obtain rfl : engine = _ := ended
    exact visit.released_of_denied filed alone stored requested guards uncalled
  · intro b kind k r stored requested guards denied
    exact b.reconcile_of_denied kind k stored requested guards (refused denied)

/-- The failed sample with leave to update and to delete, and not to create. -/
def uncreatableSample : Record Plain :=
  { failedSample with
    metadata :=
      { failedSample.metadata with
        annotations := (∅ : Annotations).insert sample.permissionKey "UD" } }

/-- A sample that is to be deleted, with a delete under way and without leave to delete. -/
def undeletableSample : Record Plain :=
  { guardedSample with
    metadata :=
      { guardedSample.metadata with
        annotations := (∅ : Annotations).insert sample.permissionKey "CU"
        deletionRequestedAt := some sampleInstant }
    status := { phase := some .inProgress, operation := some .delete } }

def undeletableBench : Bench where
  site := { plain := .only undeletableSample }
  plain := sample
  linked := linkedSample

/-- A resource is missing that may not be created again, and a delete that was under way is no longer
permitted. -/
theorem permissions_respected_of_denials :
    (∃ past s w,
      Visit sample sampleKey (fun _ _ => False) (.only uncreatableSample) past s ∧
      (Store.only uncreatableSample).Filed ∧ Found (sitting past) .missing ∧
      s.store.records[sampleKey]? = some w ∧
      w.status =
        { uncreatableSample.status with
          phase := some .failed
          message := deniedMessage .create }) ∧
    (∃ past s,
      Visit sample sampleKey (fun _ _ => False) (.only undeletableSample) past s ∧
      (Store.only undeletableSample).Filed ∧ calls (sitting past) = [] ∧
      s.store.records[sampleKey]? = .none) ∧
    (undeletableBench.reconcile .plain sampleKey).2.site.backend =
      undeletableBench.site.backend := by
  have lacks {text : String} {operation : Mutation} (missing : operation.letter ∉ text.toList) :
      ¬ Grants ((∅ : Annotations).insert sample.permissionKey text) sample.permissionKey
        operation :=
    fun grants => missing (grants text Std.ExtTreeMap.getElem?_insert_self)
  refine ⟨?_, ?_, ?_⟩
  · have read : Visit sample sampleKey (fun _ _ => False) (.only uncreatableSample) _ _ :=
      .did .begin (.ask (.read _ sampleKey))
    have probed := (read.did .issue).did (.finish .verify (some (.ok ⟨.missing, none⟩)))
    have ended := (probed.did (.ask (.writeStatus _ _))).did .report
    obtain ⟨_, fails, _⟩ := permissions_respected ended (Store.only_filed _)
    obtain ⟨_, w, after, _, status⟩ := fails uncreatableSample .create _
      (fun _ _ allowed => allowed.elim) rfl rfl rfl
      (.probed ⟨_, List.mem_of_getElem? (i := 2) rfl⟩ rfl) (lacks (by decide))
    exact ⟨_, _, w, ended, Store.only_filed _, ⟨_, List.mem_of_getElem? (i := 2) rfl⟩, after,
      status⟩
  · have read : Visit sample sampleKey (fun _ _ => False) (.only undeletableSample) _ _ :=
      .did .begin (.ask (.read _ sampleKey))
    have ended := ((read.did .report).did (.ask (.writeMetadata _ _))).did .report
    obtain ⟨_, _, freed, _⟩ := permissions_respected ended (Store.only_filed _)
    obtain ⟨uncalled, gone⟩ := freed undeletableSample (fun _ _ allowed => allowed.elim) rfl rfl rfl
      (lacks (by decide))
    exact ⟨_, _, ended, Store.only_filed _, uncalled, (gone _ rfl).2⟩
  · have begun : Visit sample sampleKey (fun _ _ => False) (.only undeletableSample) _ _ := .begin
    obtain ⟨_, _, _, bench⟩ := permissions_respected begun (Store.only_filed _)
    obtain ⟨_, _, kept⟩ := bench undeletableBench .plain sampleKey undeletableSample rfl rfl rfl
      (lacks (by decide))
    exact kept (List.forall_mem_nil _)

end Scene

end Steward
