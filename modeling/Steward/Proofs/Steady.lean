import Steward.Proofs.Bench
import Steward.Proofs.Calls

/-!
# Steady surroundings

A reconcile in surroundings where nothing moves but what it moves itself: the statuses of other
records stay as they are, and a call ends the same way each time.  There an attempt can be carried
to its end, and what it does without writing it does again, whatever is stored by then.  A status
that was written down is the one that its transition leads to, so to write it down again makes no
difference.
-/

namespace Steward

open Deed

variable {σ α β : Type}

/-! ## Doing a transition twice -/

/-- What a list of fields adds to a payload does not depend on what is there. -/
theorem Payload.exists_added (fields : List (String × Value)) :
    ∃ added : String → Option Value, ∀ (payload : Payload) (name : String),
      (fields.foldl (fun payload (name, value) =>
        if name ∈ Status.reserved then payload else payload.insert name value) payload)[name]? =
          (added name).or payload[name]? := by
  induction fields with
  | nil => exact ⟨fun _ => none, fun _ _ => rfl⟩
  | cons field fields ih =>
      obtain ⟨label, value⟩ := field
      obtain ⟨added, rest⟩ := ih
      by_cases own : label ∈ Status.reserved
      · refine ⟨added, fun payload name => ?_⟩
        rw [List.foldl_cons, rest]
        simp only [own, if_true]
      · refine ⟨fun name => (added name).or (if label = name then some value else none),
          fun payload name => ?_⟩
        rw [List.foldl_cons, rest]
        simp only [own, if_false, Std.ExtTreeMap.getElem?_insert, Option.or_assoc,
          Std.LawfulEqCmp.compare_eq_iff_eq]
        split <;> rfl

theorem Status.merge_merge (status : Status) (fields : Payload) :
    (status.merge fields).merge fields = status.merge fields := by
  obtain ⟨added, adds⟩ := Payload.exists_added fields.toList
  simp only [merge, Status.mk.injEq, true_and]
  refine Std.ExtTreeMap.ext_getElem? fun name => ?_
  rw [adds, adds, ← Option.or_assoc, Option.or_self]

theorem Transition.message_apply (t : Transition) (previous : Status) :
    (t.apply previous).message = clipped t.message := by
  rw [apply]
  cases t.payload <;> rfl

/-- A transition that was made once makes no more difference. -/
theorem Transition.apply_apply (t : Transition) (status : Status) :
    t.apply (t.apply status) = t.apply status := by
  have kept : (t.operation <|> (t.operation <|> status.operation)) =
      (t.operation <|> status.operation) := by
    cases t.operation <;> rfl
  cases carried : t.payload with
  | none => simp only [apply, carried, kept]
  | some fields =>
      have again := Status.merge_merge
        { phase := some t.phase, message := clipped t.message
          operation := t.operation <|> status.operation, payload := status.payload } fields
      simp only [apply, carried]
      simp only [Status.merge] at again ⊢
      simpa only [kept] using again

/-! ## Deeds -/

namespace Deed

/-- The call that was issued, with what was passed. -/
def order? : Deed σ → Option (Call × String × σ)
  | .issued call id spec => some (call, id, spec)
  | _ => none

/-- The calls that were issued, the newest first. -/
def orders (deeds : List (Deed σ)) : List (Call × String × σ) := deeds.filterMap order?

/-- The record whose metadata was to be written. -/
def metadata? : Deed σ → Option (Record σ)
  | .asked (.writeMetadata incoming) _ => some incoming
  | _ => none

/-- A write or an event. -/
def stirs : Deed σ → Bool
  | .asked query _ => query.written?.isSome
  | .reported _ => true
  | .issued _ _ _ | .ended _ _ => false

/-- A call that was issued, or the end of one. -/
def calling : Deed σ → Bool
  | .issued _ _ _ | .ended _ _ => true
  | .asked _ _ | .reported _ => false

variable {newer older : List (Deed σ)}

theorem orders_append : orders (newer ++ older) = orders newer ++ orders older :=
  List.filterMap_append

theorem orders_eq_nil (uncalled : ∀ deed ∈ newer, deed.calling = false) : orders newer = [] := by
  refine List.filterMap_eq_nil_iff.mpr fun deed done => ?_
  have silent := uncalled deed done
  cases deed <;> first | rfl | cases silent

theorem mem_calls_iff {call : Call} :
    call ∈ calls newer ↔ ∃ id spec, (call, id, spec) ∈ orders newer := by
  rw [mem_calls]
  refine exists_congr fun id => exists_congr fun spec => ?_
  rw [orders, List.mem_filterMap]
  constructor
  · exact fun done => ⟨_, done, rfl⟩
  · rintro ⟨deed, done, order⟩
    cases deed <;> cases order
    exact done

theorem found_append {condition : Condition} :
    Found (newer ++ older) condition ↔ Found newer condition ∨ Found older condition := by
  simp only [Found, List.mem_append, exists_or]

/-- What is found is found by a call. -/
theorem not_found (uncalled : ∀ deed ∈ newer, deed.calling = false) (condition : Condition) :
    ¬ Found newer condition := by
  rintro ⟨payload, done⟩
  cases uncalled _ done

end Deed

/-! ## Being carried -/

/-- What stays as it is: the statuses that other records have, and how each call ends. -/
structure Steady (σ : Type) where
  status : Key → Except Fault (Option Status)
  ending : (call : Call) → String → σ → call.Ending

/-- A store, and what was done so far, the newest first. -/
structure Play (σ : Type) where
  store : Store σ
  deeds : List (Deed σ) := []

/-- The play after some more deeds that leave the store alone. -/
def Play.after (w : Play σ) (deeds : List (Deed σ)) : Play σ := { w with deeds := deeds ++ w.deeds }

theorem Play.after_after (w : Play σ) (deeds more : List (Deed σ)) :
    (w.after deeds).after more = w.after (more ++ deeds) := by
  rw [after, after, after, List.append_assoc]

namespace Steady

variable [DecidableEq σ] {env : Steady σ} {w v : Play σ} {c : Controller σ} {r : Record σ}

def answer (env : Steady σ) (s : Store σ) : (query : Query σ) → query.Answer × Store σ
  | .read key => s.get key
  | .writeMetadata incoming => s.update incoming
  | .writeStatus incoming => s.updateStatus incoming
  | .readStatus key => (env.status key, s)

def surroundings (env : Steady σ) : Procedure.Surroundings σ (Play σ) where
  answer query w :=
    let (answer, store) := env.answer w.store query
    (answer, { store, deeds := .asked query answer :: w.deeds })
  note event w := w.after [.reported event]

omit [DecidableEq σ] in
/-- The deeds of one call, the end of it first. -/
def called (env : Steady σ) (call : Call) (id : String) (spec : σ) : List (Deed σ) :=
  [.ended call (env.ending call id spec), .issued call id spec]

/-- An attempt, carried to its end. -/
def carry (env : Steady σ) (x : Attempt σ α) (w : Play σ) : Except Fault α × Play σ :=
  x.run.run env.surroundings
    (fun call id spec w => (env.ending call id spec, w.after (env.called call id spec))) w

/-- An attempt goes on where its first part succeeds. -/
theorem carry_bind (env : Steady σ) (x : Attempt σ α) (f : α → Attempt σ β) (w : Play σ) :
    env.carry (x >>= f) w =
      match env.carry x w with
      | (.ok a, v) => env.carry (f a) v
      | (.error fault, v) => (.error fault, v) := by
  change (x.run.bind _).run env.surroundings _ w = _
  rw [Procedure.run_bind, carry]
  generalize x.run.run env.surroundings _ w = first
  obtain ⟨_ | _, _⟩ := first <;> rfl

theorem carry_bind_of_ok {x : Attempt σ α} {a : α} (first : env.carry x w = (.ok a, v))
    (f : α → Attempt σ β) : env.carry (x >>= f) w = env.carry (f a) v := by
  rw [carry_bind, first]

/-- Where an attempt succeeds, so did its first part. -/
theorem of_carry_bind {x : Attempt σ α} {f : α → Attempt σ β} {b : β}
    (ends : env.carry (x >>= f) w = (.ok b, v)) :
    ∃ a u, env.carry x w = (.ok a, u) ∧ env.carry (f a) u = (.ok b, v) := by
  rw [carry_bind] at ends
  generalize env.carry x w = first at ends ⊢
  obtain ⟨_ | a, u⟩ := first
  · cases ends
  · exact ⟨a, u, rfl, ends⟩

theorem carry_read (env : Steady σ) (key : Key) (w : Play σ) :
    env.carry (Attempt.read key) w =
      ((w.store.get key).1,
        { store := (w.store.get key).2
          deeds := .asked (.read key) (w.store.get key).1 :: w.deeds }) := rfl

theorem carry_writeMetadata (env : Steady σ) (incoming : Record σ) (w : Play σ) :
    env.carry (Attempt.writeMetadata incoming) w =
      ((w.store.update incoming).1,
        { store := (w.store.update incoming).2
          deeds := .asked (.writeMetadata incoming) (w.store.update incoming).1 :: w.deeds }) := rfl

theorem carry_writeStatus (env : Steady σ) (incoming : Record σ) (w : Play σ) :
    env.carry (Attempt.writeStatus incoming) w =
      ((w.store.updateStatus incoming).1,
        { store := (w.store.updateStatus incoming).2
          deeds := .asked (.writeStatus incoming) (w.store.updateStatus incoming).1 :: w.deeds }) :=
  rfl

/-- Nothing that was done is forgotten. -/
theorem exists_deeds (env : Steady σ) (x : Attempt σ α) (w : Play σ) :
    ∃ newer, (env.carry x w).2.deeds = newer ++ w.deeds := by
  rw [carry]
  induction x.run generalizing w with
  | done a => exact ⟨[], rfl⟩
  | ask query resume ih =>
      obtain ⟨newer, deeds⟩ := ih _ _
      exact ⟨newer ++ [_], deeds.trans (List.append_assoc newer [_] w.deeds).symm⟩
  | call k id spec resume ih =>
      obtain ⟨newer, deeds⟩ := ih _ _
      exact ⟨newer ++ env.called k id spec, deeds.trans (List.append_assoc _ _ _).symm⟩
  | report event next ih =>
      obtain ⟨newer, deeds⟩ := ih _
      exact ⟨newer ++ [_], deeds.trans (List.append_assoc newer [_] w.deeds).symm⟩

theorem mem_of_carry {x : Attempt σ α} {result : Except Fault α} {deed : Deed σ}
    (ends : env.carry x w = (result, v)) (done : deed ∈ w.deeds) : deed ∈ v.deeds := by
  obtain ⟨newer, deeds⟩ := env.exists_deeds x w
  rw [ends] at deeds
  rw [deeds]
  exact List.mem_append_right newer done

theorem mem_calls_of_carry {x : Attempt σ α} {result : Except Fault α} {call : Call}
    (ends : env.carry x w = (result, v)) (issued : call ∈ calls w.deeds) :
    call ∈ calls v.deeds := by
  obtain ⟨id, spec, done⟩ := mem_calls.mp issued
  exact mem_calls.mpr ⟨id, spec, mem_of_carry ends done⟩

/-- With these deeds, and without touching the store, one attempt comes to another, whatever is
stored. -/
def Comes (env : Steady σ) (x : Attempt σ α) (deeds : List (Deed σ)) (y : Attempt σ α) : Prop :=
  ∀ w, env.carry x w = env.carry y (w.after deeds)

theorem Comes.trans {x y z : Attempt σ α} {deeds more : List (Deed σ)} (first : env.Comes x deeds y)
    (rest : env.Comes y more z) : env.Comes x (more ++ deeds) z := by
  intro w
  rw [first, rest, Play.after_after]

theorem Comes.bind {x y : Attempt σ α} {deeds : List (Deed σ)} (first : env.Comes x deeds y)
    (f : α → Attempt σ β) : env.Comes (x >>= f) deeds (y >>= f) := by
  intro w
  rw [carry_bind, carry_bind, first]

theorem Comes.bind_pure {x : Attempt σ α} {a : α} {deeds : List (Deed σ)}
    (first : env.Comes x deeds (pure a)) (f : α → Attempt σ β) :
    env.Comes (x >>= f) deeds (f a) := first.bind f

/-! ## Calls -/

/-- A call that is not answered in time is a fault. -/
theorem carry_call (env : Steady σ) (c : Controller σ) (call : Call) (r : Record σ) (w : Play σ) :
    env.carry (c.call call r) w =
      ((match env.ending call (c.resourceId r) r.spec with
        | none => .error (.timeout (Named.name call) (c.resourceId r)
            (Counter.capped c.intervals.operationTimeout))
        | some answer => .ok answer),
        w.after (env.called call (c.resourceId r) r.spec)) := by
  simp only [carry, Controller.call, Attempt.call, ExceptT.run_mk, Procedure.run]
  cases env.ending call (c.resourceId r) r.spec <;> rfl

theorem comes_call {call : Call} {answer : Except String call.Answer}
    (answered : env.ending call (c.resourceId r) r.spec = some answer) :
    env.Comes (c.call call r) (env.called call (c.resourceId r) r.spec) (pure answer) := by
  intro w
  rw [carry_call, answered]
  rfl

theorem of_carry_call {call : Call} {answer : Except String call.Answer}
    (ends : env.carry (c.call call r) w = (.ok answer, v)) :
    env.ending call (c.resourceId r) r.spec = some answer ∧
      v = w.after (env.called call (c.resourceId r) r.spec) := by
  rw [carry_call] at ends
  cases answered : env.ending call (c.resourceId r) r.spec with
  | none =>
      rw [answered] at ends
      cases ends
  | some other =>
      rw [answered] at ends
      cases ends
      exact ⟨rfl, rfl⟩

/-- An attempt that goes on after a call has issued it. -/
theorem mem_calls_of_call {call : Call} {f : Except String call.Answer → Attempt σ α} {a : α}
    (ends : env.carry (c.call call r >>= f) w = (.ok a, v)) : call ∈ calls v.deeds := by
  obtain ⟨answer, u, called, rest⟩ := of_carry_bind ends
  obtain ⟨_, rfl⟩ := of_carry_call called
  refine mem_calls.mpr ⟨c.resourceId r, r.spec, mem_of_carry rest ?_⟩
  exact List.mem_append_left _ (List.mem_cons_of_mem _ List.mem_cons_self)

omit [DecidableEq σ] in
theorem stirs_called {call : Call} {id : String} {spec : σ} {deed : Deed σ}
    (done : deed ∈ env.called call id spec) : deed.stirs = false := by
  rw [called] at done
  simp only [List.mem_cons, List.not_mem_nil, or_false] at done
  obtain rfl | rfl := done <;> rfl

omit [DecidableEq σ] in
theorem found_called_iff {id : String} {spec : σ} {condition : Condition} :
    Found (env.called .verify id spec) condition ↔
      ∃ payload, env.ending .verify id spec = some (.ok ⟨condition, payload⟩) := by
  simp [Found, called, eq_comm]

/-! ## References -/

/-- The deeds of a look at the status of a reference. -/
def looked (env : Steady σ) (key : Key) : List (Deed σ) :=
  [.asked (.readStatus key) (env.status key)]

/-- The first reference is looked up, and then perhaps the others. -/
theorem carry_check_cons (env : Steady σ) (role : Role) (ref : Reference)
    (refs : List (Role × Reference)) (w : Play σ) :
    env.carry (ExceptT.mk (Readiness.check Attempt.readStatus ((role, ref) :: refs))) w =
      match env.status ref.key with
      | .error fault => (.error fault, w.after (env.looked ref.key))
      | .ok status =>
          match Readiness.ofStatus role ref status with
          | some readiness => (.ok readiness, w.after (env.looked ref.key))
          | none =>
              env.carry (ExceptT.mk (Readiness.check Attempt.readStatus refs))
                (w.after (env.looked ref.key)) := by
  have first : (Attempt.readStatus ref.key).run env.surroundings
      (fun call id spec w => (env.ending call id spec, w.after (env.called call id spec))) w =
        (env.status ref.key, w.after (env.looked ref.key)) := rfl
  rw [carry, Readiness.check]
  change Procedure.run _ _ (Procedure.bind _ _) _ = _
  rw [Procedure.run_bind, first]
  cases env.status ref.key with
  | error fault => rfl
  | ok status =>
      dsimp only
      cases Readiness.ofStatus role ref status <;> rfl

/-- References are looked up alike each time. -/
theorem of_carry_check {refs : List (Role × Reference)} {readiness : Readiness}
    (ends : env.carry (ExceptT.mk (Readiness.check Attempt.readStatus refs)) w =
      (.ok readiness, v)) :
    ∃ deeds, v = w.after deeds ∧
      (∀ deed ∈ deeds, deed.stirs = false ∧ deed.calling = false) ∧
      env.Comes (ExceptT.mk (Readiness.check Attempt.readStatus refs)) deeds (pure readiness) := by
  induction refs generalizing w with
  | nil =>
      cases ends
      exact ⟨[], rfl, List.forall_mem_nil _, fun _ => rfl⟩
  | cons entry refs ih =>
      obtain ⟨role, ref⟩ := entry
      have first : ∀ deed ∈ env.looked ref.key, deed.stirs = false ∧ deed.calling = false := by
        intro deed done
        rw [List.mem_singleton.mp done]
        exact ⟨rfl, rfl⟩
      simp only [Comes, carry_check_cons] at ends ⊢
      cases found : env.status ref.key with
      | error fault =>
          simp only [found] at ends
          cases ends
      | ok status =>
          simp only [found] at ends ⊢
          cases told : Readiness.ofStatus role ref status with
          | some readiness =>
              simp only [told] at ends ⊢
              cases ends
              exact ⟨_, rfl, first, fun _ => rfl⟩
          | none =>
              simp only [told] at ends ⊢
              obtain ⟨deeds, rfl, lookups, again⟩ := ih ends
              refine ⟨deeds ++ env.looked ref.key, w.after_after _ _, fun deed done => ?_,
                fun w => ?_⟩
              · exact (List.mem_append.mp done).elim (lookups deed) (first deed)
              · rw [again, Play.after_after]

/-! ## Writing down -/

omit [DecidableEq σ] in
/-- The record after a transition, with whatever version. -/
def restated (r : Record σ) (t : Transition) (resourceVersion : Nat) : Record σ :=
  { r with metadata := { r.metadata with resourceVersion }, status := t.apply r.status }

omit [DecidableEq σ] in
theorem phase_restated (r : Record σ) (t : Transition) (version : Nat) :
    (restated r t version).status.phase = some t.phase :=
  Controller.phase_apply t r.status

omit [DecidableEq σ] in
theorem operation_restated (r : Record σ) (t : Transition) (version : Nat) :
    (restated r t version).status.operation = (t.operation <|> r.status.operation) :=
  Controller.operation_apply t r.status

omit [DecidableEq σ] in
theorem issued_restated {t : Transition} {version : Nat} (issued : r.status.operation ≠ none) :
    (restated r t version).status.operation ≠ none := by
  rw [operation_restated]
  cases t.operation with
  | none => exact issued
  | some => exact Option.some_ne_none _

/-- What is written down is written down once. -/
theorem commit_again (env : Steady σ) (sound : w.store.faults = 0)
    (stored : w.store.records[r.key]? = some r) (held : r.metadata.finalizers ≠ [])
    (t : Transition) :
    ∃ requeueAfter version v newer,
      env.carry (c.commit r t) w = (.ok ⟨some (t.apply r.status), requeueAfter⟩, v) ∧
      v.deeds = newer ++ w.deeds ∧ (∀ deed ∈ newer, deed.calling = false) ∧
      v.store.faults = 0 ∧ v.store.records[r.key]? = some (restated r t version) ∧
      env.Comes (c.commit (restated r t version) t) []
        (pure ⟨some (t.apply r.status), requeueAfter⟩) := by
  have again (version : Nat) : env.Comes (c.commit (restated r t version) t) []
      (pure ⟨some (t.apply r.status), some (c.requeueAfter t.phase)⟩) := by
    intro w
    rw [Controller.commit, restated, t.apply_apply, if_neg (not_not_intro rfl)]
    rfl
  by_cases same : t.apply r.status = r.status
  · refine ⟨_, r.metadata.resourceVersion, w, [], ?_, rfl, List.forall_mem_nil _, sound, ?_,
      again _⟩
    · rw [Controller.commit, same, if_neg (not_not_intro rfl)]
      rfl
    · rw [restated, same]
      exact stored
  have wrote := Store.updateStatus_of_stored sound stored held (t.apply r.status)
  have written := env.carry_writeStatus { r with status := t.apply r.status } w
  rw [wrote] at written
  have after : (w.store.put .modified (Store.bumped
      { r with status := t.apply r.status })).records[r.key]? = some (restated r t _) :=
    Std.ExtTreeMap.getElem?_insert_self
  rw [Controller.commit, if_pos same, carry_bind_of_ok written]
  cases t.event with
  | none => exact ⟨_, _, _, [_], rfl, rfl, by simp [calling], sound, after, again _⟩
  | some event => exact ⟨_, _, _, [_, _], rfl, rfl, by simp [calling], sound, after, again _⟩

/-- The finalizer is in place before anything else is done. -/
theorem carry_ensureFinalizer (env : Steady σ) (sound : w.store.faults = 0)
    (stored : w.store.records[r.key]? = some r) (stays : r.metadata.isDeletionRequested = false) :
    ∃ v newer, env.carry (c.ensureFinalizer r) w = (.ok (c.secured r), v) ∧
      v.deeds = newer ++ w.deeds ∧ (∀ deed ∈ newer, deed.calling = false) ∧ v.store.faults = 0 ∧
      v.store.records[r.key]? = some (c.secured r) := by
  rw [Controller.ensureFinalizer, Controller.secured]
  by_cases guards : r.metadata.hasFinalizer c.definition.finalizer = true
  · rw [if_pos guards, if_pos guards]
    exact ⟨w, [], rfl, rfl, List.forall_mem_nil _, sound, stored⟩
  rw [if_neg guards, if_neg guards, Metadata.addFinalizer_of_lacks guards]
  have wrote := Store.update_of_stored sound stored
    { r.metadata with finalizers := r.metadata.finalizers ++ [c.definition.finalizer] } rfl rfl
  rw [Store.rewritten_self, if_neg (by rw [stays]; exact Bool.false_ne_true)] at wrote
  have written := env.carry_writeMetadata
    { r with
      metadata :=
        { r.metadata with
          finalizers := r.metadata.finalizers ++ [c.definition.finalizer] } } w
  rw [wrote] at written
  exact ⟨_, [_], written, rfl, by simp [calling], sound, Std.ExtTreeMap.getElem?_insert_self⟩

theorem comes_ensureFinalizer (env : Steady σ) (guards : c.Guards r) :
    env.Comes (c.ensureFinalizer r) [] (pure r) := by
  intro w
  rw [Controller.ensureFinalizer, if_pos (show r.metadata.hasFinalizer _ = true from guards)]
  rfl

/-- To let go of a record that has the finalizer is to write it without. -/
theorem of_carry_release {outcome : Outcome} (guards : c.Guards r)
    (ends : env.carry (c.release r) w = (.ok outcome, v)) :
    ∃ incoming ∈ v.deeds.filterMap metadata?, ¬ c.Guards incoming := by
  rw [Controller.release, if_pos (show r.metadata.hasFinalizer _ = true from guards)] at ends
  obtain ⟨answer, u, written, rest⟩ := of_carry_bind ends
  rw [carry_writeMetadata] at written
  obtain ⟨_, rfl⟩ := Prod.mk.inj written
  refine ⟨{ r with metadata := r.metadata.removeFinalizer c.definition.finalizer },
    List.mem_filterMap.mpr ⟨_, mem_of_carry rest List.mem_cons_self, rfl⟩, ?_⟩
  simp [Controller.Guards, Metadata.hasFinalizer_removeFinalizer]

end Steady

end Steward
