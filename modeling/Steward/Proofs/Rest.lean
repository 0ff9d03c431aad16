import Steward.Proofs.Steady

/-!
# Coming to rest

Where nothing moves but what a reconcile moves itself, a reconcile that neither changes the external
resource nor lets go of its record has come to rest: to reconcile the record again makes the same
calls, writes nothing, reports nothing, and ends as before.  Each way to settle a record is looked
at twice for this, the second time with the status that the first time left.  One way leads on: a
resource that went missing is found missing again in a record that has failed meanwhile, and then
it is created anew.
-/

namespace Steward

open Deed

variable {σ α β : Type}

/-! ## Seeing the same again -/

/-- A condition that was written down is written down again when it is found again, unless it was
that the resource went missing. -/
theorem Verdict.ofCondition_settled {found : Condition} {phase : Option Phase} {t : Transition}
    (verdict : ofCondition found phase = .settle t)
    (expected : found = .missing → phase = some .inProgress ∨ phase = some .failed) :
    ofCondition found (some t.phase) = .settle t := by
  unfold ofCondition at verdict ⊢
  cases found with
  | ready | inProgress | error =>
      cases verdict
      rfl
  | updateRequired => cases verdict
  | deleting =>
      simp only at verdict ⊢
      split at verdict <;> cases verdict <;> rfl
  | missing =>
      simp only at verdict ⊢
      obtain awaited | failed := expected rfl
      · rw [if_pos awaited] at verdict
        cases verdict
        rfl
      · rw [failed] at verdict
        cases verdict

/-- What calls for an operation calls for it after a failure too. -/
theorem Verdict.ofCondition_failed {found : Condition} {phase : Option Phase}
    {operation : Mutation} (verdict : ofCondition found phase = .apply operation) :
    ofCondition found (some .failed) = .apply operation := by
  obtain ⟨rfl, rfl, -⟩ | ⟨rfl, rfl⟩ := ofCondition_eq_apply verdict <;> rfl

/-- A deletion that is under way stays so, after it was noted. -/
theorem DeletionProgress.afterVerify_inProgress {found : Condition} {attemptFailed : Bool}
    (progress : afterVerify found attemptFailed = .inProgress) :
    afterVerify found false = .inProgress := by
  cases found <;> first | rfl | cases progress

theorem DeletionProgress.afterVerify_failed {found : Condition} {attemptFailed : Bool}
    {message : String} (progress : afterVerify found attemptFailed = .failed message) :
    afterVerify found true = .failed message := by
  cases found <;> cases attemptFailed <;> first | exact progress | cases progress

/-- The status allows for a resource that is missing: it is being made, or it was not made. -/
def Record.AllowsMissing (r : Record σ) : Prop :=
  r.status.phase = some .inProgress ∨ r.status.phase = some .failed

namespace Steady

variable [DecidableEq σ] {env : Steady σ} {w v : Play σ} {c : Controller σ} {r : Record σ}
variable {permissions : Permissions} {key : Key} {outcome : Outcome} {t : Transition}
variable {deeds : List (Deed σ)}

/-! ## Deciding -/

/-- A record whose resource is only probed is denied every create and update. -/
theorem denied_of_carry_apply {operation : Mutation}
    (ends : env.carry (c.apply operation r permissions) w = (.ok t, v))
    (probes : ∀ call ∈ calls v.deeds, call = .verify) :
    permissions.allows operation = false ∧ t = .denied operation ∧ v = w := by
  rw [Controller.apply] at ends
  cases allowed : permissions.allows operation with
  | false =>
      rw [allowed] at ends
      cases ends
      exact ⟨rfl, rfl, rfl⟩
  | true =>
      rw [allowed, if_neg (by decide)] at ends
      split at ends
      · cases probes .update (mem_calls_of_call ends)
      · cases probes .create (mem_calls_of_call ends)

theorem comes_apply {operation : Mutation} (denied : permissions.allows operation = false) :
    env.Comes (c.apply operation r permissions) [] (pure (.denied operation)) := by
  intro w
  rw [Controller.apply, denied]
  rfl

/-- A transition that was decided without changing the resource, and what is decided the next time:
the same, or, if the resource went missing, that it is to be created. -/
structure Decides (env : Steady σ) (c : Controller σ) (permissions : Permissions) (r : Record σ)
    (t : Transition) (deeds : List (Deed σ)) (x : Record σ → Attempt σ α)
    (onward : Record σ → Attempt σ Transition → Attempt σ α) : Prop where
  still : ∀ deed ∈ deeds, deed.stirs = false
  again : (Found deeds .missing → r.AllowsMissing) → ∀ version,
    env.Comes (x (restated r t version)) deeds (onward (restated r t version) (pure t))
  anew : Found deeds .missing → ¬ r.AllowsMissing →
    t.message = "external resource is missing" ∧ ∀ version,
      env.Comes (x (restated r t version)) deeds
        (onward (restated r t version) (c.apply .create (restated r t version) permissions))

/-- Unless the resource went missing, the same is decided again. -/
theorem decides_of_again {x : Record σ → Attempt σ α}
    {onward : Record σ → Attempt σ Transition → Attempt σ α}
    (still : ∀ deed ∈ deeds, deed.stirs = false) (known : Found deeds .missing → r.AllowsMissing)
    (again : ∀ version,
      env.Comes (x (restated r t version)) deeds (onward (restated r t version) (pure t))) :
    env.Decides c permissions r t deeds x onward :=
  ⟨still, fun _ => again, fun missing vanished => absurd (known missing) vanished⟩

/-- Once an operation was issued, the resource is probed first. -/
theorem comes_drive (permissions : Permissions) {found : Condition} {payload : Option Payload}
    (issued : r.status.operation ≠ none)
    (answered : env.ending .verify (c.resourceId r) r.spec = some (.ok ⟨found, payload⟩)) :
    env.Comes (c.drive r permissions) (env.called .verify (c.resourceId r) r.spec)
      (match Verdict.ofCondition found r.status.phase with
        | .settle t => pure (t.withPayload payload)
        | .apply operation => c.apply operation r permissions) := by
  rw [Controller.drive, if_neg issued]
  exact (comes_call answered).bind_pure _

/-- What was decided about the condition that was found. -/
theorem of_carry_verdict {found : Condition} {payload : Option Payload}
    (issued : r.status.operation ≠ none)
    (answered : env.ending .verify (c.resourceId r) r.spec = some (.ok ⟨found, payload⟩))
    (ends : env.carry (match Verdict.ofCondition found r.status.phase with
        | .settle t => pure (t.withPayload payload)
        | .apply operation => c.apply operation r permissions) w = (.ok t, v))
    (probes : ∀ call ∈ calls v.deeds, call = .verify) :
    v = w ∧ env.Decides c permissions r t (env.called .verify (c.resourceId r) r.spec)
      (c.drive · permissions) fun _ next => next := by
  have found_iff (condition : Condition) :
      Found (env.called .verify (c.resourceId r) r.spec) condition ↔ found = condition := by
    simp [found_called_iff, answered]
  -- The next time the probe ends as before, and the phase is the one that was written down.
  have probed (t : Transition) (version : Nat) :=
    comes_drive (c := c) (r := restated r t version) permissions (issued_restated issued) answered
  simp only [phase_restated] at probed
  cases verdict : Verdict.ofCondition found r.status.phase with
  | settle settled =>
      simp only [verdict] at ends
      cases ends
      refine ⟨rfl, fun _ => stirs_called, fun known version => ?_, fun missing vanished => ?_⟩
      · have again := Verdict.ofCondition_settled verdict fun missing =>
          known ((found_iff _).mpr missing)
        have repeated := probed (settled.withPayload payload) version
        simp only [Transition.withPayload, again] at repeated
        exact repeated
      · obtain ⟨awaited, failed⟩ := not_or.mp vanished
        obtain rfl := (found_iff _).mp missing
        rw [Verdict.ofCondition, if_neg awaited, if_neg failed] at verdict
        cases verdict
        exact ⟨rfl, probed _⟩
  | apply operation =>
      simp only [verdict] at ends
      obtain ⟨denied, rfl, rfl⟩ := denied_of_carry_apply ends probes
      refine ⟨rfl, decides_of_again (fun _ => stirs_called) ?_ fun version => ?_⟩
      · intro missing
        obtain ⟨-, -, failed⟩ | ⟨-, other⟩ := Verdict.ofCondition_eq_apply verdict
        · exact .inr failed
        · cases ((found_iff _).mp missing).symm.trans other
      · have repeated := probed (.denied operation) version
        have again : Verdict.ofCondition found (some (Transition.denied operation).phase) =
            .apply operation := Verdict.ofCondition_failed verdict
        simp only [again] at repeated
        exact repeated.trans (comes_apply denied)

theorem of_carry_drive (ends : env.carry (c.drive r permissions) w = (.ok t, v))
    (probes : ∀ call ∈ calls v.deeds, call = .verify) :
    ∃ deeds, v = w.after deeds ∧
      env.Decides c permissions r t deeds (c.drive · permissions) fun _ next => next := by
  by_cases unissued : r.status.operation = none
  · rw [Controller.drive, if_pos unissued] at ends
    obtain ⟨denied, rfl, rfl⟩ := denied_of_carry_apply ends probes
    refine ⟨[], rfl, decides_of_again (List.forall_mem_nil _) ?_ fun version => ?_⟩
    · exact fun missing => absurd missing (not_found (List.forall_mem_nil _) _)
    · rw [Controller.drive, if_pos (by rw [operation_restated, unissued]; rfl)]
      exact comes_apply denied
  rw [Controller.drive, if_neg unissued] at ends
  obtain ⟨answer, u, called, rest⟩ := of_carry_bind ends
  obtain ⟨answered, rfl⟩ := of_carry_call called
  cases answer with
  | error message =>
      cases rest
      refine ⟨_, rfl, decides_of_again (fun _ => stirs_called) ?_ fun version => ?_⟩
      · rw [found_called_iff, answered]
        rintro ⟨_, ⟨⟩⟩
      · rw [Controller.drive, if_neg (issued_restated unissued)]
        exact (comes_call (r := restated r _ version) answered).bind_pure _
  | ok response =>
      obtain ⟨rfl, decides⟩ := of_carry_verdict unissued answered rest probes
      exact ⟨_, rfl, decides⟩

theorem comes_invalid (guards : c.Guards r) {key : Key} {reason : String}
    (invalid : c.definition.references r = .error (.invalidInstance key reason)) :
    env.Comes (c.reconcilePresent r permissions) []
      (c.commit r ((Transition.failed reason).reporting .warning "InvalidInstance")) := by
  intro w
  rw [Controller.reconcilePresent, (comes_ensureFinalizer env guards).bind_pure _ w, invalid]

/-- The references come first, and then what the record itself needs. -/
theorem comes_checked (env : Steady σ) (permissions : Permissions) (guards : c.Guards r)
    {refs : References} {readiness : Readiness}
    (valid : c.definition.references r = .ok refs)
    (checked : env.Comes (ExceptT.mk (Readiness.check Attempt.readStatus refs.all)) deeds
      (pure readiness)) :
    env.Comes (c.reconcilePresent r permissions) deeds
      (if readiness.isReady then c.drive r permissions >>= c.commit r
        else c.commit r (.pending readiness.message)) := by
  intro w
  rw [Controller.reconcilePresent, (comes_ensureFinalizer env guards).bind_pure _ w, valid]
  exact checked.bind_pure _ w

/-- The references make no difference to what is decided after them. -/
theorem Decides.after {lookups : List (Deed σ)} {x : Record σ → Attempt σ Transition}
    {y : Record σ → Attempt σ Outcome}
    (decides : env.Decides c permissions r t deeds x fun _ next => next)
    (looks : ∀ deed ∈ lookups, deed.stirs = false ∧ deed.calling = false)
    (first : ∀ version, env.Comes (y (restated r t version)) lookups
      (x (restated r t version) >>= c.commit (restated r t version))) :
    env.Decides c permissions r t (deeds ++ lookups) y fun r' next => next >>= c.commit r' := by
  have found_iff : Found (deeds ++ lookups) .missing ↔ Found deeds .missing :=
    found_append.trans (or_iff_left (not_found (fun deed done => (looks deed done).2) .missing))
  refine ⟨fun deed done => ?_, fun known version => ?_, fun missing vanished => ?_⟩
  · exact (List.mem_append.mp done).elim (decides.still deed) fun done => (looks deed done).1
  · exact (first version).trans ((decides.again (known ∘ found_iff.mpr) version).bind _)
  · obtain ⟨told, anew⟩ := decides.anew (found_iff.mp missing) vanished
    exact ⟨told, fun version => (first version).trans ((anew version).bind _)⟩

/-- What was decided of a record that is to stay and has the finalizer. -/
theorem of_carry_reconcilePresent (guards : c.Guards r)
    (content : ∀ t version, c.definition.references (restated r t version) =
      c.definition.references r)
    (ends : env.carry (c.reconcilePresent r permissions) w = (.ok outcome, v))
    (probes : ∀ call ∈ calls v.deeds, call = .verify) :
    ∃ t deeds, env.carry (c.commit r t) (w.after deeds) = (.ok outcome, v) ∧
      env.Decides c permissions r t deeds (c.reconcilePresent · permissions)
        fun r' next => next >>= c.commit r' := by
  rw [Controller.reconcilePresent, (comes_ensureFinalizer env guards).bind_pure _ w] at ends
  cases named : c.definition.references r with
  | error fault =>
      rw [named] at ends
      cases fault with
      | invalidInstance key reason =>
          refine ⟨_, [], ends, decides_of_again (List.forall_mem_nil _) ?_ fun version => ?_⟩
          · exact fun missing => absurd missing (not_found (List.forall_mem_nil _) _)
          · exact comes_invalid (r := restated r _ version) guards ((content _ version).trans named)
      | _ => cases ends
  | ok refs =>
      rw [named] at ends
      obtain ⟨readiness, u, checked, rest⟩ := of_carry_bind ends
      obtain ⟨lookups, rfl, looks, checks⟩ := of_carry_check checked
      have again (t : Transition) (version : Nat) :=
        env.comes_checked (c := c) (r := restated r t version) permissions guards
          ((content t version).trans named) checks
      have unfound := not_found (fun deed done => (looks deed done).2) .missing
      cases ready : readiness.isReady with
      | false =>
          rw [ready] at rest
          refine ⟨_, _, rest, decides_of_again (fun deed done => (looks deed done).1)
            (absurd · unfound) fun version => ?_⟩
          have repeated := again (.pending readiness.message) version
          rw [ready] at repeated
          exact repeated
      | true =>
          rw [ready] at rest
          obtain ⟨t, u, driven, rest⟩ := of_carry_bind rest
          obtain ⟨probed, rfl, decides⟩ := of_carry_drive driven fun call issued =>
            probes call (mem_calls_of_carry rest issued)
          rw [Play.after_after] at rest
          refine ⟨t, _, rest, decides.after looks fun version => ?_⟩
          have repeated := again t version
          rw [ready] at repeated
          exact repeated

/-! ## Deleting -/

theorem comes_verifyDelete {found : Condition} {payload : Option Payload}
    (answered : env.ending .verify (c.resourceId r) r.spec = some (.ok ⟨found, payload⟩)) :
    env.Comes (c.verifyDelete r) (env.called .verify (c.resourceId r) r.spec)
      (match DeletionProgress.afterVerify found (r.status.phase == some .failed) with
        | .reissue => c.issueDelete r
        | progress => c.advanceDeletion r progress) :=
  (comes_call answered).bind_pure _

/-- What a deletion was found to have come to without another delete, it is found to have come to
again. -/
theorem of_carry_verifyDelete (guards : c.Guards r)
    (ends : env.carry (c.verifyDelete r) w = (.ok outcome, v))
    (probes : ∀ call ∈ calls v.deeds, call = .verify)
    (holds : ∀ incoming ∈ v.deeds.filterMap metadata?, c.Guards incoming) :
    ∃ t deeds, env.carry (c.commit r t) (w.after deeds) = (.ok outcome, v) ∧
      t.operation = some .delete ∧ (∀ deed ∈ deeds, deed.stirs = false) ∧
      ∀ version, env.Comes (c.verifyDelete (restated r t version)) deeds
        (c.commit (restated r t version) t) := by
  rw [Controller.verifyDelete] at ends
  obtain ⟨answer, u, called, rest⟩ := of_carry_bind ends
  obtain ⟨answered, rfl⟩ := of_carry_call called
  cases answer with
  | error message =>
      refine ⟨_, _, rest, rfl, fun _ => stirs_called, fun version => ?_⟩
      exact (comes_call (r := restated r _ version) answered).bind_pure _
  | ok response =>
      obtain ⟨found, payload⟩ := response
      dsimp only at rest
      -- The next time the probe ends as before, and the phase is the one that was written down.
      have probed (t : Transition) (version : Nat) :=
        comes_verifyDelete (c := c) (r := restated r t version) answered
      simp only [phase_restated] at probed
      cases progress : DeletionProgress.afterVerify found (r.status.phase == some .failed) with
      | confirmed =>
          simp only [progress] at rest
          obtain ⟨incoming, written, free⟩ := of_carry_release guards rest
          exact absurd (holds incoming written) free
      | reissue =>
          simp only [progress] at rest
          cases probes .delete (mem_calls_of_call rest)
      | inProgress =>
          simp only [progress] at rest
          refine ⟨_, _, rest, rfl, fun _ => stirs_called, fun version => ?_⟩
          have repeated :=
            probed ((Transition.inProgress "deleting resource").issued .delete) version
          rw [show (some _ == some Phase.failed) = false from rfl,
            DeletionProgress.afterVerify_inProgress progress] at repeated
          exact repeated
      | failed message =>
          simp only [progress] at rest
          refine ⟨_, _, rest, rfl, fun _ => stirs_called, fun version => ?_⟩
          have repeated := probed
            (((Transition.failed message).reporting .warning "DeleteFailed").issued .delete) version
          rw [show (some _ == some Phase.failed) = true from rfl,
            DeletionProgress.afterVerify_failed progress] at repeated
          exact repeated

/-! ## Reconciling again -/

/-- What a reconcile does with the record that it read. -/
def attend (c : Controller σ) (r : Record σ) : Attempt σ Outcome :=
  if r.metadata.isDeletionRequested then c.reconcileDeletion r (c.permissions r)
  else c.reconcilePresent r (c.permissions r)

/-- To reconcile the record once more makes the same calls, leaves the store alone, reports nothing,
and ends as before. -/
def Rests (env : Steady σ) (c : Controller σ) (key : Key) (outcome : Outcome) (v : Play σ) : Prop :=
  ∃ u, env.carry (c.reconcile key) { store := v.store } = (.ok outcome, u) ∧ u.store = v.store ∧
    orders u.deeds = orders v.deeds ∧ ∀ deed ∈ u.deeds, deed.stirs = false

theorem carry_reconcile (env : Steady σ) (c : Controller σ) (sound : w.store.faults = 0)
    (stored : w.store.records[key]? = some r) :
    env.carry (c.reconcile key) w =
      env.carry (attend c r) (w.after [.asked (.read key) (.ok (some r))]) := by
  have found := env.carry_read key w
  rw [Store.get_of_sound sound, stored] at found
  rw [Controller.reconcile, carry_bind_of_ok found]
  rfl

/-- A record is read as it was left, and then what is found out about it decides. -/
theorem carry_again (sound : w.store.faults = 0) (stored : w.store.records[r.key]? = some r)
    {x : Attempt σ Outcome} (comes : env.Comes (attend c r) deeds x) :
    env.carry (c.reconcile r.key) { store := w.store } =
      env.carry x { store := w.store, deeds := deeds ++ [.asked (.read r.key) (.ok (some r))] } :=
  (env.carry_reconcile c (w := { store := w.store }) sound stored).trans (comes _)

/-- What is decided again after it was written down makes no more difference. -/
theorem rests_of_again (sound : w.store.faults = 0)
    (stored : w.store.records[r.key]? = some r) (held : r.metadata.finalizers ≠ [])
    (uncalled : ∀ deed ∈ w.deeds, deed.calling = false)
    (ends : env.carry (c.commit r t) (w.after deeds) = (.ok outcome, v))
    (still : ∀ deed ∈ deeds, deed.stirs = false)
    (again : ∀ version, env.Comes (attend c (restated r t version)) deeds
      (c.commit (restated r t version) t)) :
    env.Rests c r.key outcome v := by
  obtain ⟨requeueAfter, version, _, newer, committed, done, silent, sound, stored, once⟩ :=
    env.commit_again (c := c) (w := w.after deeds) sound stored held t
  cases committed.symm.trans ends
  have rested := (carry_again sound stored (again version)).trans (once _)
  refine ⟨{ store := v.store, deeds := deeds ++ [_] }, rested, rfl, ?_, fun deed done => ?_⟩
  · rw [done, Play.after, orders_append, orders_append, orders_append, orders_eq_nil silent,
      orders_eq_nil uncalled]
    rfl
  · obtain repeated | read := List.mem_append.mp done
    · exact still deed repeated
    · rw [List.mem_singleton.mp read]
      rfl

/-- The outcome tells the status that was written down. -/
theorem status_of_carry_commit (ends : env.carry (c.commit r t) w = (.ok outcome, v)) :
    outcome.status = some (t.apply r.status) := by
  rw [Controller.commit] at ends
  split at ends
  · obtain ⟨_, u, -, rest⟩ := of_carry_bind ends
    cases reported : t.event <;> rw [reported] at rest <;> cases rest <;> rfl
  · cases ends
    rfl

/-- A denied create says so, and not that the resource is missing. -/
theorem apply_denied_ne {status previous : Status}
    (told : t.message = "external resource is missing") :
    (Transition.denied .create).apply status ≠ t.apply previous := by
  intro same
  have distinct : clipped (Permissions.deniedMessage .create) ≠
      clipped "external resource is missing" := by
    decide +kernel
  have message := congrArg Status.message same
  rw [Transition.message_apply, Transition.message_apply, told] at message
  exact distinct message

/-- Where a create is decided the next time, it is issued, or the status says that it was denied. -/
theorem not_rests_of_anew (sound : w.store.faults = 0)
    (stored : w.store.records[r.key]? = some r) (held : r.metadata.finalizers ≠ [])
    (ends : env.carry (c.commit r t) (w.after deeds) = (.ok outcome, v))
    (probes : ∀ call ∈ calls v.deeds, call = .verify)
    (told : t.message = "external resource is missing")
    (anew : ∀ version, env.Comes (attend c (restated r t version)) deeds
      (c.apply .create (restated r t version) permissions >>= c.commit (restated r t version))) :
    ¬ env.Rests c r.key outcome v := by
  rintro ⟨u, second, -, same, -⟩
  obtain ⟨requeueAfter, version, _, newer, committed, -, -, sound, stored, -⟩ :=
    env.commit_again (c := c) (w := w.after deeds) sound stored held t
  cases committed.symm.trans ends
  obtain ⟨t', u', applied, rest⟩ :=
    of_carry_bind ((carry_again sound stored (anew version)).symm.trans second)
  obtain ⟨-, rfl, rfl⟩ := denied_of_carry_apply applied fun call issued => by
    obtain ⟨id, spec, order⟩ := mem_calls_iff.mp (mem_calls_of_carry rest issued)
    exact probes call (mem_calls_iff.mpr ⟨id, spec, same ▸ order⟩)
  exact apply_denied_ne told (Option.some.inj (status_of_carry_commit rest)).symm

theorem deletion_rests (sound : w.store.faults = 0) (stored : w.store.records[r.key]? = some r)
    (uncalled : ∀ deed ∈ w.deeds, deed.calling = false)
    (requested : r.metadata.isDeletionRequested = true)
    (ends : env.carry (c.reconcileDeletion r (c.permissions r)) w = (.ok outcome, v))
    (probes : ∀ call ∈ calls v.deeds, call = .verify)
    (holds : ∀ incoming ∈ v.deeds.filterMap metadata?, c.Guards incoming) :
    env.Rests c r.key outcome v := by
  have planned : c.PlannedFor r (DeletionPlan.next r.metadata r.status (c.permissions r)
      c.definition.finalizer) := c.plannedFor_next r
  rw [Controller.reconcileDeletion] at ends
  cases plan : DeletionPlan.next r.metadata r.status (c.permissions r) c.definition.finalizer with
  | nothing =>
      rw [plan] at ends
      cases ends
      have second := env.carry_reconcile c (w := { store := w.store }) sound stored
      rw [attend, if_pos requested, Controller.reconcileDeletion, plan] at second
      refine ⟨_, second, rfl, ?_, fun deed done => ?_⟩
      · rw [orders_eq_nil uncalled]
        rfl
      · rw [List.mem_singleton.mp done]
        rfl
  | releaseWithoutDelete =>
      rw [plan] at ends planned
      obtain ⟨_, _, _, rest⟩ := of_carry_bind ends
      obtain ⟨incoming, written, free⟩ := of_carry_release planned.1 rest
      exact absurd (holds incoming written) free
  | delete =>
      rw [plan] at ends
      cases probes .delete (mem_calls_of_call ends)
  | verifyDelete =>
      rw [plan] at ends planned
      obtain ⟨t, deeds, ends, issued, still, again⟩ :=
        of_carry_verifyDelete planned.1 ends probes holds
      refine rests_of_again sound stored planned.1.finalizers_ne_nil uncalled ends still
        fun version => ?_
      have replanned : DeletionPlan.next (restated r t version).metadata
          (restated r t version).status (c.permissions (restated r t version))
          c.definition.finalizer = .verifyDelete := by
        rw [← plan]
        simp only [DeletionPlan.next, operation_restated, issued, planned.2.2]
        rfl
      rw [attend, if_pos (by exact requested), Controller.reconcileDeletion, replanned]
      exact again version

/-- A record that is to stay and has the finalizer. -/
theorem guarded_rests_iff (guards : c.Guards r) (sound : w.store.faults = 0)
    (stored : w.store.records[r.key]? = some r) (stays : r.metadata.isDeletionRequested = false)
    (content : ∀ (status : Status) (resourceVersion : Nat),
      c.definition.references
          { r with metadata := { r.metadata with resourceVersion }, status } =
        c.definition.references r)
    (uncalled : ∀ deed ∈ w.deeds, deed.calling = false)
    (ends : env.carry (c.reconcilePresent r (c.permissions r)) w = (.ok outcome, v))
    (probes : ∀ call ∈ calls v.deeds, call = .verify) :
    env.Rests c r.key outcome v ↔ ¬ (Found v.deeds .missing ∧ ¬ r.AllowsMissing) := by
  have held := guards.finalizers_ne_nil
  obtain ⟨t, deeds, ends, decides⟩ := of_carry_reconcilePresent guards
    (fun t version => content (t.apply r.status) version) ends probes
  have found_iff : Found v.deeds .missing ↔ Found deeds .missing := by
    obtain ⟨_, _, _, newer, committed, done, silent, -⟩ :=
      env.commit_again (c := c) (w := w.after deeds) sound stored held t
    cases committed.symm.trans ends
    rw [done, Play.after, found_append, found_append]
    simp only [not_found silent, not_found uncalled, false_or, or_false]
  have attended (version : Nat) : attend c (restated r t version) =
      c.reconcilePresent (restated r t version) (c.permissions r) :=
    if_neg (by rw [Bool.not_eq_true]; exact stays)
  rw [found_iff]
  by_cases vanished : Found deeds .missing ∧ ¬ r.AllowsMissing
  · obtain ⟨told, anew⟩ := decides.anew vanished.1 vanished.2
    simp only [← attended] at anew
    exact iff_of_false (not_rests_of_anew sound stored held ends probes told anew)
      (not_not_intro vanished)
  · refine iff_of_true (rests_of_again sound stored held uncalled ends decides.still
      fun version => ?_) vanished
    rw [attended]
    exact decides.again (by simpa using vanished) version

omit [DecidableEq σ] in
theorem permissions_secured (c : Controller σ) (r : Record σ) :
    c.permissions (c.secured r) = c.permissions r := by
  rw [Controller.secured]
  split
  · rfl
  · rw [Controller.permissions, Store.bumped, Metadata.annotations_addFinalizer]
    rfl

/-- A record that is to stay, with or without the finalizer. -/
theorem present_rests_iff (sound : w.store.faults = 0)
    (stored : w.store.records[r.key]? = some r) (stays : r.metadata.isDeletionRequested = false)
    (content : ∀ (r : Record σ) (status : Status) (resourceVersion : Nat),
      c.definition.references
          { r with metadata := { r.metadata with resourceVersion }, status } =
        c.definition.references r)
    (uncalled : ∀ deed ∈ w.deeds, deed.calling = false)
    (ends : env.carry (c.reconcilePresent r (c.permissions r)) w = (.ok outcome, v))
    (probes : ∀ call ∈ calls v.deeds, call = .verify) :
    env.Rests c r.key outcome v ↔ ¬ (Found v.deeds .missing ∧ ¬ r.AllowsMissing) := by
  obtain ⟨u, newer, ensured, done, silent, sound', stored'⟩ :=
    env.carry_ensureFinalizer (c := c) sound stored stays
  have guards := c.secured_guards r
  have entered (permissions : Permissions) : env.carry (c.reconcilePresent r permissions) w =
      env.carry (c.reconcilePresent (c.secured r) permissions) u := by
    rw [Controller.reconcilePresent, carry_bind_of_ok ensured, Controller.reconcilePresent,
      (comes_ensureFinalizer env guards).bind_pure _ u]
    rfl
  rw [entered, ← permissions_secured] at ends
  rw [← c.secured_key r] at stored' ⊢
  have rests_iff := guarded_rests_iff guards sound' stored'
    ((c.secured_isDeletionRequested r).trans stays) (content _) (fun deed earlier => by
      rw [done] at earlier
      exact (List.mem_append.mp earlier).elim (silent deed) (uncalled deed)) ends probes
  rwa [Record.AllowsMissing, c.secured_status] at rests_iff

/-- In steady surroundings, after a reconcile that issued no create, update or delete and kept the
finalizer: to reconcile the record again makes the same calls, writes nothing, reports nothing, and
ends as before.  There is one exception: the resource of a record that is to stay was found missing
while the record was neither in progress nor failed. -/
theorem reconcile_rests_iff (env : Steady σ) (c : Controller σ)
    (content : ∀ (r : Record σ) (status : Status) (resourceVersion : Nat),
      c.definition.references
          { r with metadata := { r.metadata with resourceVersion }, status } =
        c.definition.references r)
    {s : Store σ} (filed : s.Filed) (sound : s.faults = 0) (stored : s.records[key]? = some r)
    (ends : env.carry (c.reconcile key) { store := s } = (.ok outcome, v))
    (probes : ∀ call ∈ calls v.deeds, call = .verify)
    (holds : ∀ incoming ∈ v.deeds.filterMap metadata?, c.Guards incoming) :
    env.Rests c key outcome v ↔
      ¬ (r.metadata.isDeletionRequested = false ∧ Found v.deeds .missing ∧
        ¬ r.AllowsMissing) := by
  obtain rfl := filed key r stored
  have quiet : ∀ deed ∈ [Deed.asked (.read r.key) (.ok (some r))], deed.calling = false := by
    simp [calling]
  rw [env.carry_reconcile c sound stored, attend] at ends
  cases requested : r.metadata.isDeletionRequested with
  | true =>
      rw [if_pos requested] at ends
      refine iff_of_true ?_ (by simp)
      exact deletion_rests sound stored quiet requested ends probes holds
  | false =>
      rw [if_neg (by rw [requested]; exact Bool.false_ne_true)] at ends
      rw [present_rests_iff (w := ⟨s, _⟩) sound stored requested content quiet ends probes]
      simp

/-- A linked record that was created and does not have the finalizer yet. -/
def createdSample (phase : Phase) : Record Linked where
  metadata := { key := Scene.sampleKey }
  spec := { id := "vm-b", owner := "db", dependencies := ["base"] }
  status := { phase := some phase, operation := some .create }

/-- Whatever is referred to has succeeded, and a probe finds the resource in this condition. -/
def probing (condition : Condition) : Steady Linked where
  status _ := .ok (some { phase := some .succeeded })
  ending
    | .verify, _, _ => some (.ok ⟨condition, some (.ofEntries [("address", .text "10.0.0.1")])⟩)
    | .create, _, _ | .update, _, _ | .delete, _, _ => none

/-- A resource that became ready is left alone from then on, and one that went missing is not. -/
theorem reconcile_rests_iff_of_probes :
    (∃ outcome v,
      (probing .ready).carry (Scene.linkedSample.reconcile Scene.sampleKey)
        { store := .only (createdSample .inProgress) } = (.ok outcome, v) ∧
      (probing .ready).Rests Scene.linkedSample Scene.sampleKey outcome v) ∧
    ∃ outcome v,
      (probing .missing).carry (Scene.linkedSample.reconcile Scene.sampleKey)
        { store := .only (createdSample .succeeded) } = (.ok outcome, v) ∧
      ¬ (probing .missing).Rests Scene.linkedSample Scene.sampleKey outcome v := by
  constructor
  · refine ⟨_, _, rfl, (reconcile_rests_iff (probing .ready) Scene.linkedSample (fun _ _ _ => rfl)
      (Store.only_filed (createdSample .inProgress)) rfl rfl rfl ?_ ?_).mpr ?_⟩
    · exact List.forall_mem_singleton.mpr rfl
    · exact List.forall_mem_singleton.mpr rfl
    · exact fun ⟨_, _, vanished⟩ => vanished (.inl rfl)
  · refine ⟨_, _, rfl, mt (reconcile_rests_iff (probing .missing) Scene.linkedSample
      (fun _ _ _ => rfl) (Store.only_filed (createdSample .succeeded)) rfl rfl rfl ?_ ?_).mp
      (not_not_intro ⟨rfl, ⟨_, List.mem_of_getElem? (i := 2) rfl⟩, ?_⟩)⟩
    · exact List.forall_mem_singleton.mpr rfl
    · exact List.forall_mem_singleton.mpr rfl
    · rintro (⟨⟨⟩⟩ | ⟨⟨⟩⟩)

end Steady

end Steward
