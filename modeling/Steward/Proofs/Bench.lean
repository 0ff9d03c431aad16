import Steward.Bench
import Steward.Proofs.Scene

/-!
# The bench as a scene

A bench runs one reconcile after the other, so what its store goes through is one of the histories of
a scene, and what holds in all of those holds on the bench.  Here the bench is left alone: the
simulated backend answers, at once, accepted calls land only when they are completed by hand, and
the store does not fail.
-/

namespace Steward

variable {α β : Type}

namespace Procedure

variable {σ ω : Type} {here : Surroundings σ ω}
variable {perform : (call : Call) → String → σ → ω → call.Ending × ω}

theorem run_bind (p : Procedure σ α) (f : α → Procedure σ β) (w : ω) :
    (p.bind f).run here perform w =
      (f (p.run here perform w).1).run here perform (p.run here perform w).2 := by
  induction p generalizing w with
  | done a => rfl
  | ask query resume ih => exact ih _ _
  | call k id spec resume ih => exact ih _ _
  | report event next ih => exact ih _

end Procedure

namespace Backend

theorem fire_of_not_due {b : Backend} {now : Nat} (later : ∀ timer ∈ b.timers, now < timer.due) :
    b.fire now = b := by
  have due : b.timers.filter (fun timer => timer.due ≤ now) = [] := by
    simpa using later
  have kept : b.timers.filter (not ∘ fun timer => decide (timer.due ≤ now)) = b.timers := by
    simpa using later
  simp only [fire, List.partition_eq_filter_filter, due, kept, List.mergeSort_nil, List.foldl_nil]

theorem fire_of_timers_eq_nil {b : Backend} (idle : b.timers = []) (now : Nat) : b.fire now = b := by
  apply fire_of_not_due
  rw [idle]
  exact List.forall_mem_nil _

theorem receive_of_manual {b : Backend} (manual : b.completionDelay = none) (now : Nat) (id : String)
    (request : Request) :
    b.receive now id request =
      (((b.resource id).receive request).1, b.set id ((b.resource id).receive request).2) := by
  have unset : (b.set id ((b.resource id).receive request).2).completionDelay = none := manual
  simp only [receive, unset]

/-- How a resource without behaviours answers a probe. -/
theorem Resource.receive_verify {r : Resource} (plainly : r.behaviours = []) :
    r.receive .verify =
      (.ok (.verify r.latest), { r with requests := r.requests ++ [.verify] }) := by
  rw [receive, select, plainly]
  rfl

/-- How a resource without behaviours answers a create. -/
theorem Resource.receive_create {r : Resource} (plainly : r.behaviours = []) :
    r.receive .create =
      (.ok (.apply .awaitingVerification),
        ({ r with requests := r.requests ++ [Request.create] } : Resource).park .inProgress .ready) := by
  rw [receive, select, plainly]
  rfl

/-- How a resource without behaviours answers a delete. -/
theorem Resource.receive_delete {r : Resource} (plainly : r.behaviours = []) :
    r.receive .delete =
      (.ok (.delete .awaitingVerification),
        ({ r with requests := r.requests ++ [Request.delete] } : Resource).park .deleting .missing) := by
  rw [receive, select, plainly]
  rfl

theorem Resource.latest_enter (r : Resource) (condition : Condition) :
    (r.enter condition).latest = condition := by
  rw [latest, enter]
  simp

theorem Resource.latest_complete {r : Resource} {condition : Condition}
    (parked : r.parked = some condition) : r.complete.2.latest = condition := by
  rw [complete, parked]
  exact r.latest_enter condition

theorem Resource.behaviours_complete (r : Resource) : r.complete.2.behaviours = r.behaviours := by
  rw [complete]
  split <;> rfl

theorem resource_set (b : Backend) (id : String) (r : Resource) : (b.set id r).resource id = r := by
  rw [resource, set, Std.ExtTreeMap.getElem?_insert_self]
  rfl

theorem perform_verify {b : Backend} (manual : b.completionDelay = none) (now : Nat) {id : String}
    (plainly : (b.resource id).behaviours = []) :
    ∃ payload, (b.perform now id .verify).1 = .ok ⟨(b.resource id).latest, payload⟩ := by
  simp only [perform, verify, receive_of_manual manual, Resource.receive_verify plainly]
  exact ⟨_, rfl⟩

theorem perform_create {b : Backend} (manual : b.completionDelay = none) (now : Nat) {id : String}
    (plainly : (b.resource id).behaviours = []) :
    ∃ payload, (b.perform now id .create).1 = .ok ⟨.awaitingVerification, payload⟩ := by
  simp only [perform, create, receive_of_manual manual, Resource.receive_create plainly]
  exact ⟨_, rfl⟩

theorem perform_delete {b : Backend} (manual : b.completionDelay = none) (now : Nat) {id : String}
    (plainly : (b.resource id).behaviours = []) :
    (b.perform now id .delete).1 = .ok .awaitingVerification := by
  simp only [perform, delete, receive_of_manual manual, Resource.receive_delete plainly]
  rfl

end Backend

namespace Store

variable {σ : Type} {s : Store σ}

theorem get_of_sound (sound : s.faults = 0) (key : Key) : s.get key = (.ok s.records[key]?, s) :=
  guarded_of_sound sound _ _

theorem readStatus_of_sound (sound : s.faults = 0) (key : Key) :
    s.readStatus key = (.ok (s.records[key]?.map Record.status), s) :=
  guarded_of_sound sound _ _

theorem writeWith_sound (sound : s.faults = 0) (operation : String) (incoming : Record σ)
    (change : Record σ → Record σ) : (s.writeWith operation incoming change).2.faults = 0 := by
  rw [writeWith, guarded_of_sound sound, withRecord]
  split
  · exact sound
  simp only
  split
  · exact sound
  split <;> exact sound

/-- A new status is put in place of the stored one. -/
theorem updateStatus_of_stored (sound : s.faults = 0) {stored : Record σ}
    (found : s.records[stored.key]? = some stored) (held : stored.metadata.finalizers ≠ [])
    (status : Status) :
    s.updateStatus { stored with status } =
      (.ok (bumped { stored with status }), s.put .modified (bumped { stored with status })) := by
  have written := writeWith_of_current sound { stored with status } found rfl
    "update_status" (restated { stored with status })
  rw [updateStatus_eq, written, if_neg]
  · rfl
  · simp [restated, held]

/-- A write of metadata that is based on the stored version goes through. -/
theorem update_of_stored [DecidableEq σ] (sound : s.faults = 0) {stored : Record σ}
    (found : s.records[stored.key]? = some stored) (metadata : Metadata)
    (own : metadata.key = stored.key)
    (current : metadata.resourceVersion = stored.metadata.resourceVersion) :
    s.update { stored with metadata } =
      (.ok (bumped (rewritten { stored with metadata } stored)),
        if stored.metadata.isDeletionRequested && metadata.finalizers.isEmpty then
          s.drop stored.key
        else s.put .modified (bumped (rewritten { stored with metadata } stored))) := by
  have written := writeWith_of_current sound { stored with metadata }
    (by rw [Record.key, own]; exact found) current "update" (rewritten { stored with metadata })
  rw [update_eq, written]
  change (_, if _ then s.drop metadata.key else _) = _
  rw [own]
  rfl

/-- A record that is to be deleted is dropped when nothing holds it any more. -/
theorem update_of_released [DecidableEq σ] (sound : s.faults = 0) {stored : Record σ}
    (found : s.records[stored.key]? = some stored)
    (requested : stored.metadata.isDeletionRequested = true) (metadata : Metadata)
    (own : metadata.key = stored.key)
    (current : metadata.resourceVersion = stored.metadata.resourceVersion)
    (free : metadata.finalizers = []) :
    ∃ w, s.update { stored with metadata } = (.ok w, s.drop stored.key) := by
  rw [update_of_stored sound found metadata own current, if_pos]
  · exact ⟨_, rfl⟩
  · rw [Bool.and_eq_true]
    exact ⟨requested, List.isEmpty_iff.mpr free⟩

theorem create_sound (sound : s.faults = 0) (r : Record σ) : (s.create r).2.faults = 0 := by
  rw [create, guarded_of_sound sound]
  split <;> exact sound

theorem requestDeletion_sound (sound : s.faults = 0) (now : Instant) (key : Key) :
    (s.requestDeletion now key).2.faults = 0 := by
  rw [requestDeletion, guarded_of_sound sound, withRecord]
  split
  · exact sound
  simp only
  split
  · exact sound
  split <;> exact sound

end Store

/-- A bench that is left alone, with this controller of plain records. -/
structure Bench.Calm (c : Controller Plain) (b : Bench) : Prop where
  plain : b.plain = c
  unscripted : b.script = none
  prompt : b.site.backend.latency = 0
  manual : b.site.backend.completionDelay = none
  idle : b.site.backend.timers = []
  sound : b.site.plain.faults = 0

namespace Bench

variable {c : Controller Plain} {b : Bench}

theorem Calm.advance_zero (calm : b.Calm c) : b.site.advance 0 = b.site := by
  rw [Site.advance, Site.advanceTo, Backend.fire_of_timers_eq_nil calm.idle]
  rfl

/-- The request that a call is to the backend. -/
def request : Call → Backend.Request
  | .create => .create
  | .update => .update
  | .verify => .verify
  | .delete => .delete

theorem perform_snd_of_manual {backend : Backend} (manual : backend.completionDelay = none)
    (now : Nat) (id : String) (call : Call) :
    (backend.perform now id call).2 =
      backend.set id ((backend.resource id).receive (request call)).2 := by
  cases call <;> exact congrArg Prod.snd (backend.receive_of_manual manual now id _)

/-- The bench after the backend received a call. -/
def received (b : Bench) (call : Call) (id : String) : Bench :=
  { b with
    calls := b.calls.push (call, id)
    site :=
      { b.site with
        backend :=
          b.site.backend.set id ((b.site.backend.resource id).receive (request call)).2 } }

theorem resource_received (b : Bench) (call : Call) (id : String) :
    (b.received call id).site.backend.resource id =
      ((b.site.backend.resource id).receive (request call)).2 := by
  rw [received, Backend.resource_set]

theorem Calm.received (calm : b.Calm c) (call : Call) (id : String) :
    (b.received call id).Calm c :=
  ⟨calm.plain, calm.unscripted, calm.prompt, calm.manual, calm.idle, calm.sound⟩

/-- The backend answers at once. -/
theorem Calm.perform (calm : b.Calm c) (budget : Nat) (call : Call) (id : String) :
    b.perform budget call id =
      (some (b.site.backend.perform b.site.clock id call).1, b.received call id) := by
  rw [Bench.perform, Bench.received]
  simp only [calm.unscripted, calm.prompt, Nat.zero_le, if_true, calm.advance_zero]
  rw [Site.call, ← perform_snd_of_manual calm.manual b.site.clock id call]

theorem answers (b : Bench) (query : Query Plain) (sound : b.site.plain.faults = 0) :
    b.site.plain.Answers query (b.onSite (Site.answer .plain query)).1
      (b.onSite (Site.answer .plain query)).2.site.plain := by
  cases query with
  | read key => exact .read _ key
  | writeMetadata r => exact .writeMetadata _ r
  | writeStatus r => exact .writeStatus _ r
  | readStatus key =>
      have same : (b.onSite (Site.answer .plain (.readStatus key))).2.site.plain = b.site.plain :=
        congrArg Prod.snd (Store.readStatus_of_sound sound key)
      rw [same]
      exact .readStatus _ key _ b.site.plain.faults

theorem Calm.answer (calm : b.Calm c) (query : Query Plain) :
    (b.onSite (Site.answer .plain query)).2.Calm c where
  plain := calm.plain
  unscripted := calm.unscripted
  prompt := by cases query <;> exact calm.prompt
  manual := by cases query <;> exact calm.manual
  idle := by cases query <;> exact calm.idle
  sound := by
    cases query with
    | read key =>
        change (b.site.plain.get key).2.faults = 0
        rw [Store.get_of_sound calm.sound]
        exact calm.sound
    | writeMetadata r => exact Store.writeWith_sound calm.sound _ _ _
    | writeStatus r => exact Store.writeWith_sound calm.sound _ _ _
    | readStatus key =>
        change (b.site.plain.readStatus key).2.faults = 0
        rw [Store.readStatus_of_sound calm.sound]
        exact calm.sound

/-- What is left of a procedure, carried to its end on the bench. -/
def carry (b : Bench) (budget : Nat) (p : Procedure Plain α) : α × Bench :=
  p.run (surroundings .plain) (fun call id _ b => b.perform budget call id) b

theorem Calm.noted (calm : b.Calm c) (event : Event) :
    { b with site := b.site.note event }.Calm c :=
  ⟨calm.plain, calm.unscripted, calm.prompt, calm.manual, calm.idle, calm.sound⟩

theorem Calm.carry_call (calm : b.Calm c) (budget : Nat) {call : Call} {id : String} {spec : Plain}
    (resume : call.Ending → Procedure Plain α) :
    b.carry budget (.call call id spec resume) =
      (b.received call id).carry budget
        (resume (some (b.site.backend.perform b.site.clock id call).1)) := by
  rw [carry, Procedure.run, calm.perform]
  rfl

theorem Calm.carry_read (calm : b.Calm c) (budget : Nat) (key : Key) :
    b.carry budget (Attempt.read key).run = (.ok b.site.plain.records[key]?, b) := by
  have asked : b.carry budget (Attempt.read key).run =
      ((b.site.plain.get key).1,
        { b with site := { b.site with plain := (b.site.plain.get key).2 } }) := rfl
  rw [asked, Store.get_of_sound calm.sound]

/-- The bench with another store of plain records. -/
def refiled (b : Bench) (s : Store Plain) : Bench :=
  { b with site := { b.site with plain := s } }

theorem Calm.refiled (calm : b.Calm c) {s : Store Plain} (sound : s.faults = 0) :
    (b.refiled s).Calm c :=
  ⟨calm.plain, calm.unscripted, calm.prompt, calm.manual, calm.idle, sound⟩

theorem carry_writeMetadata (b : Bench) (budget : Nat) (r : Record Plain) :
    b.carry budget (Attempt.writeMetadata r).run =
      ((b.site.plain.update r).1, b.refiled (b.site.plain.update r).2) := rfl

theorem carry_writeStatus (b : Bench) (budget : Nat) (r : Record Plain) :
    b.carry budget (Attempt.writeStatus r).run =
      ((b.site.plain.updateStatus r).1, b.refiled (b.site.plain.updateStatus r).2) := rfl

theorem carry_report (b : Bench) (budget : Nat) (event : Event) :
    b.carry budget (Attempt.report event).run =
      (.ok (), { b with site := b.site.note event }) := rfl

theorem Calm.carry_attempt (calm : b.Calm c) (budget : Nat) (call : Call) (r : Record Plain) :
    b.carry budget (c.call call r).run =
      (.ok (b.site.backend.perform b.site.clock (c.resourceId r) call).1,
        b.received call (c.resourceId r)) :=
  calm.carry_call budget _

/-- An attempt whose first part succeeds goes on from there. -/
theorem carry_bind {budget : Nat} {x : Attempt Plain α} {a : α} {after : Bench}
    (first : b.carry budget x.run = (.ok a, after)) (f : α → Attempt Plain β) :
    b.carry budget (x >>= f).run = after.carry budget (f a).run := by
  change (x.run.bind _).run (surroundings .plain) _ b = _
  rw [carry] at first
  rw [Procedure.run_bind, first]
  rfl

/-- A bench that is left alone, with this under the key and this backend. -/
structure Shows (c : Controller Plain) (key : Key) (found : Option (Record Plain))
    (backend : Backend) (b : Bench) : Prop where
  calm : b.Calm c
  found : b.site.plain.records[key]? = found
  backend : b.site.backend = backend

/-- An event changes nothing. -/
theorem Shows.noted {key : Key} {found : Option (Record Plain)} {backend : Backend}
    (left : b.Shows c key found backend) (event : Event) :
    { b with site := b.site.note event }.Shows c key found backend :=
  ⟨left.calm.noted event, left.found, left.backend⟩

/-- A status is written down, if it differs, and nothing else changes. -/
theorem Calm.carry_commit (calm : b.Calm c) (budget : Nat) {r : Record Plain}
    (stored : b.site.plain.records[r.key]? = some r) (held : r.metadata.finalizers ≠ [])
    (t : Transition) :
    ∃ outcome after resourceVersion, b.carry budget (c.commit r t).run = (.ok outcome, after) ∧
      after.Shows c r.key
        (some { r with
          metadata := { r.metadata with resourceVersion }
          status := t.apply r.status }) b.site.backend := by
  rw [Controller.commit]
  by_cases same : t.apply r.status = r.status
  · rw [if_neg (not_not_intro same), same]
    exact ⟨_, b, r.metadata.resourceVersion, rfl, calm, stored, rfl⟩
  rw [if_pos same]
  have written := b.carry_writeStatus budget { r with status := t.apply r.status }
  rw [Store.updateStatus_of_stored calm.sound stored held] at written
  have after : (b.refiled (b.site.plain.put .modified
      (Store.bumped { r with status := t.apply r.status }))).Shows c r.key
        (some (Store.bumped { r with status := t.apply r.status })) b.site.backend :=
    ⟨calm.refiled calm.sound, Std.ExtTreeMap.getElem?_insert_self, rfl⟩
  rw [Bench.carry_bind written]
  split
  · rw [Bench.carry_bind (Bench.carry_report _ _ _)]
    exact ⟨_, _, _, rfl, after.noted _⟩
  · exact ⟨_, _, _, rfl, after⟩

theorem Calm.carry (calm : b.Calm c) (budget : Nat) (p : Procedure Plain α) :
    (b.carry budget p).2.Calm c := by
  induction p generalizing b with
  | done a => exact calm
  | ask query resume ih => exact ih _ (calm.answer query)
  | report event next ih => exact ih (calm.noted event)
  | call k id spec resume ih =>
      rw [calm.carry_call]
      exact ih _ (calm.received k id)

open Scene

variable {key : Key} {may : Custom Plain} {past : List (Happening Plain)}

/-- A reconcile that is carried to its end on the bench goes through steps of a scene. -/
theorem Calm.run_carry (calm : b.Calm c) (budget : Nat)
    (p : Procedure Plain (Except Fault Outcome))
    (run : Run c key may past ⟨b.site.plain, .running p⟩) :
    ∃ newer, Run c key may (newer ++ past)
      ⟨(b.carry budget p).2.site.plain, .running (.done (b.carry budget p).1)⟩ := by
  induction p generalizing b past with
  | done a => exact ⟨[], run⟩
  | ask query resume ih =>
      obtain ⟨newer, run⟩ := ih _ (calm.answer query)
        (run.step (.ask (b.answers query calm.sound)))
      exact ⟨newer ++ [_], by rw [List.append_assoc]; exact run⟩
  | report event next ih =>
      obtain ⟨newer, run⟩ := ih (calm.noted event) (run.step .report)
      exact ⟨newer ++ [_], by rw [List.append_assoc]; exact run⟩
  | call k id spec resume ih =>
      rw [calm.carry_call]
      obtain ⟨newer, run⟩ := ih _ (calm.received k id) ((run.step .issue).step (.finish k _))
      exact ⟨newer ++ [_, _], by rw [List.append_assoc]; exact run⟩

/-- What a reconcile does on the bench. -/
theorem Calm.reconcile_eq (calm : b.Calm c) (key : Key) :
    b.reconcile .plain key =
      b.carry c.intervals.operationTimeout (c.reconcile key).run := by
  obtain rfl := calm.plain
  have after := calm.carry b.plain.intervals.operationTimeout (b.plain.reconcile key).run
  have advanced : b.reconcile .plain key =
      ((b.carry b.plain.intervals.operationTimeout (b.plain.reconcile key).run).1,
        { (b.carry b.plain.intervals.operationTimeout (b.plain.reconcile key).run).2 with
          site := (b.carry b.plain.intervals.operationTimeout
            (b.plain.reconcile key).run).2.site.advance 0 }) := rfl
  rw [advanced, after.advance_zero]

theorem Calm.reconcile_of_absent (calm : b.Calm c) {key : Key}
    (absent : b.site.plain.records[key]? = none) : b.reconcile .plain key = (.ok .finished, b) := by
  have read := calm.carry_read c.intervals.operationTimeout key
  rw [absent] at read
  rw [calm.reconcile_eq, Controller.reconcile, carry_bind read]
  rfl

theorem Calm.reconcile_of_stored (calm : b.Calm c) {key : Key} {r : Record Plain}
    (stored : b.site.plain.records[key]? = some r) {permissions : Permissions}
    (permits : Permissions.ofAnnotations r.metadata.annotations c.permissionKey = permissions) :
    b.reconcile .plain key =
      b.carry c.intervals.operationTimeout
        (if r.metadata.isDeletionRequested then c.reconcileDeletion r permissions
          else c.reconcilePresent r permissions).run := by
  have read := calm.carry_read c.intervals.operationTimeout key
  rw [stored] at read
  rw [calm.reconcile_eq, Controller.reconcile, carry_bind read, ← permits]

/-- A reconcile of a record that is to be deleted, and may be, probes for the delete, if one was
issued, or issues it. -/
theorem Calm.reconcile_of_deleting (calm : b.Calm c) {key : Key} {r : Record Plain}
    (stored : b.site.plain.records[key]? = some r)
    (requested : r.metadata.isDeletionRequested = true) (guards : c.Guards r)
    (permitted : c.PermitsDelete r) :
    b.reconcile .plain key =
      b.carry c.intervals.operationTimeout
        (if r.status.operation = some .delete then c.verifyDelete r else c.issueDelete r).run := by
  have guarded : r.metadata.hasFinalizer c.definition.finalizer = true := guards
  have allowed : (Permissions.ofAnnotations r.metadata.annotations c.permissionKey).allows
      .delete = true := permitted
  rw [calm.reconcile_of_stored stored rfl, if_pos requested, Controller.reconcileDeletion,
    DeletionPlan.next]
  simp only [guarded, allowed, Bool.not_true, Bool.false_eq_true, if_false]
  by_cases marked : r.status.operation = some .delete
  · simp only [marked, if_true]
  · simp only [marked, if_false]

/-- A reconcile on the bench is a reconcile of the scene. -/
theorem Calm.run_reconcile (calm : b.Calm c) (run : Run c key may past ⟨b.site.plain, .idle⟩) :
    ∃ newer, Run c key may (newer ++ past) ⟨(b.reconcile .plain key).2.site.plain, .idle⟩ := by
  obtain ⟨newer, run⟩ := calm.run_carry c.intervals.operationTimeout _ (run.step .begin)
  rw [calm.reconcile_eq]
  exact ⟨.returned _ :: newer ++ [.began], by
    rw [List.append_assoc]
    exact run.step .stop⟩

/-- What is done to the backend from outside, if it takes no time and touches nothing but
resources. -/
theorem Calm.operate (calm : b.Calm c) (op : BackendOp) (prompt : b.site.backend.duration op = 0)
    (touches : ∃ resources,
      (b.site.backend.carryOut b.site.clock op).2 = { b.site.backend with resources }) :
    (b.operate op).2.Calm c ∧ (b.operate op).2.site.plain = b.site.plain ∧
      (b.operate op).2.site.backend = (b.site.backend.carryOut b.site.clock op).2 := by
  obtain ⟨resources, touched⟩ := touches
  have idle : (b.site.backend.carryOut b.site.clock op).2.timers = [] := by
    rw [touched]
    exact calm.idle
  have advanced : b.site.advance (b.site.backend.duration op) = b.site := by
    rw [prompt]
    exact calm.advance_zero
  have operated : (b.operate op).2 =
      { b with
        site :=
          { b.site.advance (b.site.backend.duration op) with
            backend :=
              ((b.site.advance (b.site.backend.duration op)).backend.carryOut
                (b.site.advance (b.site.backend.duration op)).clock op).2.fire
                (b.site.advance (b.site.backend.duration op)).clock } } := rfl
  rw [operated, advanced, Backend.fire_of_timers_eq_nil idle, touched]
  exact ⟨⟨calm.plain, calm.unscripted, calm.prompt, calm.manual, calm.idle, calm.sound⟩, rfl, rfl⟩

end Bench

namespace Backend

theorem clearBehaviours_touches (b : Backend) (id : String) :
    ∃ resources, b.clearBehaviours id = { b with resources } := by
  rw [clearBehaviours]
  split <;> exact ⟨_, rfl⟩

theorem complete_touches (b : Backend) (id : String) :
    ∃ resources, (b.complete id).2 = { b with resources } := by
  rw [complete]
  split <;> exact ⟨_, rfl⟩

theorem resource_complete (b : Backend) (id : String) :
    (b.complete id).2.resource id = (b.resource id).complete.2 := by
  rw [complete]
  split
  case h_1 absent => rw [resource, absent]; rfl
  case h_2 r found =>
    have known : b.resource id = r := by rw [resource, found]; rfl
    rw [resource_set, known]

theorem resource_clearBehaviours (b : Backend) (id : String) :
    (b.clearBehaviours id).resource id = { b.resource id with behaviours := [] } := by
  rw [clearBehaviours]
  split
  case h_1 absent => rw [resource, absent]; rfl
  case h_2 r found =>
    have known : b.resource id = r := by rw [resource, found]; rfl
    rw [resource_set, known]

end Backend

namespace Bench

variable {c : Controller Plain} {b : Bench}

theorem Calm.behave (calm : b.Calm c) (id : String) (behaviour : Backend.Behaviour) :
    (b.operate (.behave id behaviour)).2.Calm c ∧
      (b.operate (.behave id behaviour)).2.site.plain = b.site.plain :=
  have operated := calm.operate (.behave id behaviour) rfl ⟨_, rfl⟩
  ⟨operated.1, operated.2.1⟩

theorem Calm.clearBehaviours (calm : b.Calm c) (id : String) :
    (b.operate (.clearBehaviours id)).2.Calm c ∧
      (b.operate (.clearBehaviours id)).2.site.plain = b.site.plain ∧
      (b.operate (.clearBehaviours id)).2.site.backend.resource id =
        { b.site.backend.resource id with behaviours := [] } := by
  obtain ⟨calm', kept, backend⟩ :=
    calm.operate (.clearBehaviours id) rfl (Backend.clearBehaviours_touches _ id)
  refine ⟨calm', kept, ?_⟩
  rw [backend]
  exact Backend.resource_clearBehaviours _ id

theorem Calm.complete (calm : b.Calm c) (id : String) :
    (b.operate (.complete id)).2.Calm c ∧
      (b.operate (.complete id)).2.site.plain = b.site.plain ∧
      (b.operate (.complete id)).2.site.backend.resource id =
        (b.site.backend.resource id).complete.2 := by
  obtain ⟨calm', kept, backend⟩ :=
    calm.operate (.complete id) rfl (Backend.complete_touches _ id)
  refine ⟨calm', kept, ?_⟩
  rw [backend]
  exact Backend.resource_complete _ id

end Bench

end Steward
