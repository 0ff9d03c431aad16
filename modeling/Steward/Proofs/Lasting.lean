import Steward.Proofs.Deletion
import Steward.Proofs.Discipline
import Steward.Proofs.Hand

/-!
# What lasts from one reconcile to the next

A reconcile remembers nothing but what it wrote down, so what has to last from one to the next has
to be a property of the stored record: of its status, which others leave alone, and of whether it is
to be deleted, which others may change in one direction only.  Such a property lasts when the
statuses that the engine writes have it too.
-/

namespace Steward

open Deed Controller

variable {σ : Type} {key : Key}

/-- Someone else asks for the deletion of the record under the key. -/
def Happening.marks (key : Key) : Happening σ → Bool
  | .outside (.requestDeletion marked) _ => marked == key
  | _ => false

/-! ## The record in the store -/

namespace Store

variable [DecidableEq σ] {op : StoreOp σ} {stored after : Record σ}

theorem Becomes.status_eq (becomes : Becomes key op (some stored) (some after))
    (leaves : LeavesStatus key op) : after.status = stored.status := by
  generalize found : some after = result at becomes
  cases becomes with
  | unchanged | respecified | annotated | marked =>
      cases found
      rfl
  | dropped => cases found
  | updated =>
      split at found <;> cases found
      rfl
  | statusUpdated own => exact absurd own leaves

theorem Becomes.requested_eq (becomes : Becomes key op (some stored) (some after)) :
    after.metadata.isDeletionRequested = stored.metadata.isDeletionRequested ∨
      op = .requestDeletion key ∧ after.metadata.isDeletionRequested = true := by
  generalize found : some after = result at becomes
  cases becomes with
  | unchanged | respecified | annotated =>
      cases found
      exact .inl rfl
  | marked =>
      cases found
      exact .inr ⟨rfl, rfl⟩
  | dropped => cases found
  | updated | statusUpdated =>
      split at found <;> cases found
      exact .inl rfl

end Store

namespace View

variable [DecidableEq σ] {happening : Happening σ} {v w : View σ}

/-- The record in hand has the status of the stored one. -/
def InStep (v : View σ) : Prop :=
  ∀ stored held, v.stored = some stored → v.held = some held → stored.status = held.status

theorem Turns.inStep (turns : Turns key happening v w) (unborn : happening.bears key = false)
    (leaves : ∀ op reply, happening = .outside op reply → LeavesStatus key op)
    (inStep : v.InStep) : w.InStep := by
  cases turns with
  | @outside op reply before after held becomes files =>
      intro stored hand found shown
      obtain rfl : after = some stored := found
      cases before with
      | none => cases (files rfl nofun).symm.trans unborn
      | some earlier =>
          rw [becomes.status_eq (leaves op reply rfl)]
          exact inStep earlier hand rfl shown
  | began | returned =>
      intro stored hand _ none
      cases none
  | found =>
      intro stored hand found shown
      cases found.symm.trans shown
      rfl
  | unseen => exact inStep
  | rewritten _ lands | restated _ lands =>
      intro stored hand found shown
      obtain rfl := eq_of_lands lands found
      cases shown
      rfl

theorem Turns.stored_of_read {first : Record σ}
    (turns : Turns key (.did (.asked (.read key) (.ok (some first)))) v w) :
    w.stored = some first := by
  cases turns with
  | found => rfl
  | unseen unseen => cases unseen

/-- What a step leaves in the store, and what it shows, has the property `P` if the stored record had
it and if the status that is written has it. -/
theorem Turns.lasting {P : Bool → Status → Prop} (turns : Turns key happening v w)
    (unborn : happening.bears key = false)
    (leaves : ∀ op reply, happening = .outside op reply → LeavesStatus key op)
    (steady : happening.marks key = true → ∀ status, P false status → P true status)
    (writes : ∀ incoming answer, happening = .did (.asked (.writeStatus incoming) answer) →
      ∀ stored, v.stored = some stored → P stored.metadata.isDeletionRequested incoming.status)
    (lasting : ∀ r, v.stored = some r → P r.metadata.isDeletionRequested r.status) :
    (∀ r, w.stored = some r → P r.metadata.isDeletionRequested r.status) ∧
      ∀ deed r, happening = .did deed → deed.record? = some r →
        P r.metadata.isDeletionRequested r.status := by
  cases turns with
  | @outside op reply before after held becomes files =>
      refine ⟨fun r found => ?_, fun _ _ same => nomatch same⟩
      obtain rfl : after = some r := found
      cases before with
      | none => cases (files rfl nofun).symm.trans unborn
      | some earlier =>
          have known := lasting earlier rfl
          rw [becomes.status_eq (leaves op reply rfl)]
          obtain same | ⟨rfl, marked⟩ := becomes.requested_eq
          · rw [same]
            exact known
          · rw [marked]
            cases requested : earlier.metadata.isDeletionRequested with
            | true => exact requested ▸ known
            | false => exact steady (beq_self_eq_true key) _ (requested ▸ known)
  | began | returned => exact ⟨lasting, fun _ _ same => nomatch same⟩
  | @found stored =>
      refine ⟨lasting, ?_⟩
      rintro _ r ⟨⟩ shown
      exact lasting r shown
  | unseen unseen =>
      refine ⟨lasting, ?_⟩
      rintro _ r ⟨⟩ shown
      cases unseen.symm.trans shown
  | @rewritten incoming stored after held based lands =>
      have known := lasting stored rfl
      constructor
      · intro r found
        obtain rfl := eq_of_lands lands found
        exact known
      · rintro _ r ⟨⟩ ⟨⟩
        exact known
  | @restated incoming stored after held based lands =>
      have known := writes incoming _ rfl stored rfl
      constructor
      · intro r found
        obtain rfl := eq_of_lands lands found
        exact known
      · rintro _ r ⟨⟩ ⟨⟩
        exact known

end View

namespace Scene

/-- What happened since the reconcile under way began, or since the last one ended. -/
def session : List (Happening σ) → List (Happening σ)
  | .began :: _ | .returned _ :: _ | [] => []
  | happening :: past => happening :: session past

theorem sitting_append_returned (newer : List (Happening σ)) (result : Except Fault Outcome)
    (older : List (Happening σ)) :
    sitting (newer ++ .returned result :: older) = sitting newer := by
  induction newer with
  | nil => rfl
  | cons newest newer ih =>
      cases newest with
      | did deed => exact congrArg (List.cons deed) ih
      | outside => exact ih
      | began | returned => rfl

theorem mem_of_mem_sitting {past : List (Happening σ)} {deed : Deed σ}
    (done : deed ∈ sitting past) : .did deed ∈ past := by
  induction past with
  | nil => cases done
  | cons newest past ih =>
      cases newest with
      | did last =>
          obtain rfl | earlier := List.mem_cons.mp done
          · exact List.mem_cons_self
          · exact List.mem_cons_of_mem _ (ih earlier)
      | outside => exact List.mem_cons_of_mem _ (ih done)
      | began | returned => cases done

variable [DecidableEq σ] {c : Controller σ} {may : Custom σ}
variable {past : List (Happening σ)} {s t : Scene σ} {happening : Happening σ}

theorem Step.allowed {op : StoreOp σ} {reply : StoreReply σ}
    (step : Step c key may s (.outside op reply) t) : may s.store op := by
  cases step with
  | outside now op allowed => exact allowed

theorem Step.leavesStatus (step : Step c key may s happening t)
    (leaves : ∀ s op, may s op → LeavesStatus key op) :
    ∀ op reply, happening = .outside op reply → LeavesStatus key op := by
  rintro op reply rfl
  exact leaves _ _ step.allowed

/-- In every run only what is concluded is written. -/
theorem Run.concludes (run : Run c key may past s) {incoming : Record σ}
    {answer : (Query.writeStatus incoming).Answer}
    (step : Step c key may s (.did (.asked (.writeStatus incoming) answer)) t) :
    ∃ deleting permissions r m, c.Standing key (sitting past) deleting permissions r ∧
      c.Concludes permissions r deleting (endings (sitting past)) m ∧
      incoming = { r with status := m.apply r.status } := by
  have keeps := run.keeps (c.reconcile_disciplined key)
  cases step with
  | ask => exact keeps.1

/-- In every run only what is due is called. -/
theorem Run.due (run : Run c key may past s) {call : Call} {id : String} {spec : σ}
    (step : Step c key may s (.did (.issued call id spec)) t) :
    ∃ deleting permissions r, c.Standing key (sitting past) deleting permissions r ∧
      Due r.status deleting (endings (sitting past)) call := by
  have keeps := run.keeps (c.reconcile_disciplined key)
  cases step with
  | issue =>
      obtain ⟨deleting, permissions, r, standing, due, _⟩ := keeps.1
      exact ⟨deleting, permissions, r, standing, due⟩

theorem Run.closes (run : Run c key may past s) {result : Except Fault Outcome}
    (step : Step c key may s (.returned result) t) : c.Closes key (sitting past) result := by
  have keeps := run.keeps (c.reconcile_disciplined key)
  cases step with
  | stop => exact keeps

/-- The record in hand has the status of the stored one, unless a new record was filed during the
reconcile. -/
theorem Run.inStep (run : Run c key may past s)
    (leaves : ∀ s op, may s op → LeavesStatus key op)
    (unborn : ∀ happening ∈ session past, happening.bears key = false) :
    (view key past s.store).InStep := by
  induction run with
  | start =>
      intro stored held _ none
      cases none
  | @step past s t happening run step ih =>
      cases happening with
      | outside | did =>
          obtain ⟨newest, earlier⟩ := List.forall_mem_cons.mp unborn
          exact (run.turns step).inStep newest (step.leavesStatus leaves) (ih earlier)
      | began | returned =>
          intro stored held _ none
          cases none

/-- After a reconcile that did not come to nothing or to the end of the record, the status that it
concluded is stored. -/
theorem Run.concluded (run : Run c key may past s) {outcome : Outcome}
    (step : Step c key may s (.returned (.ok outcome)) t)
    (leaves : ∀ s op, may s op → LeavesStatus key op)
    (unborn : ∀ happening ∈ session past, happening.bears key = false)
    (busy : ¬ Frees (endings (sitting past))) :
    ∃ first permissions r m, .asked (.read key) (.ok (some first)) ∈ sitting past ∧
      c.Concludes permissions r first.metadata.isDeletionRequested (endings (sitting past)) m ∧
      ∀ stored, t.store.records[key]? = some stored → stored.status = m.apply r.status := by
  obtain ⟨_, frees⟩ | ⟨deleting, permissions, r, m, w, standing, concludes, written, _⟩ :=
    run.closes step
  · exact absurd frees busy
  obtain ⟨first, read, rfl, _⟩ := standing.read
  refine ⟨first, permissions, r, m, read, concludes, fun stored found => ?_⟩
  have inStep := run.inStep leaves unborn
  cases step with
  | stop =>
      rw [← written]
      exact inStep stored w found standing.hand

/-! ## A property that lasts -/

/-- The stored record has the property `P`, and so has every record that this reconcile was shown:
a property of whether the record is to be deleted, and of its status. -/
structure Lasting (P : Bool → Status → Prop) (key : Key) (past : List (Happening σ))
    (s : Store σ) : Prop where
  stored : ∀ r, s.records[key]? = some r → P r.metadata.isDeletionRequested r.status
  shown : ∀ deed ∈ sitting past, ∀ r, deed.record? = some r →
    P r.metadata.isDeletionRequested r.status

variable {P : Bool → Status → Prop}

omit [DecidableEq σ] in
theorem Lasting.held {s : Store σ} (lasting : Lasting P key past s) {r : Record σ}
    (hand : inHand (sitting past) = some r) : P r.metadata.isDeletionRequested r.status := by
  obtain ⟨deed, done, shown⟩ := List.exists_of_findSome?_eq_some hand
  exact lasting.shown deed done r shown

omit [DecidableEq σ] in
/-- What a reconcile decides by has the property. -/
theorem Lasting.standing {s : Store σ} (lasting : Lasting P key past s) {deleting : Bool}
    {permissions : Permissions} {r : Record σ}
    (standing : c.Standing key (sitting past) deleting permissions r) :
    (∃ status, P deleting status) ∧ P r.metadata.isDeletionRequested r.status := by
  obtain ⟨first, read, rfl, _⟩ := standing.read
  exact ⟨⟨_, lasting.shown _ read first rfl⟩, lasting.held standing.hand⟩

/-- A step that files no record under the key keeps the property, if what is written has it. -/
theorem Lasting.next (lasting : Lasting P key past s.store) (run : Run c key may past s)
    (step : Step c key may s happening t) (leaves : ∀ s op, may s op → LeavesStatus key op)
    (unborn : happening.bears key = false)
    (steady : happening.marks key = true → ∀ status, P false status → P true status)
    (writes : ∀ incoming answer, happening = .did (.asked (.writeStatus incoming) answer) →
      ∀ stored, s.store.records[key]? = some stored →
        P stored.metadata.isDeletionRequested incoming.status) :
    Lasting P key (happening :: past) t.store := by
  obtain ⟨stored, shown⟩ :=
    (run.turns step).lasting unborn (step.leavesStatus leaves) steady writes lasting.stored
  refine ⟨stored, fun deed done r seen => ?_⟩
  cases happening with
  | did newest =>
      obtain rfl | earlier := List.mem_cons.mp done
      · exact shown deed r rfl seen
      · exact lasting.shown deed earlier r seen
  | outside => exact lasting.shown deed done r seen
  | began | returned => cases done

/-- What was true of the deletion mark of the record that this reconcile read has been true since. -/
theorem Run.lasting_of_read {marked : Bool → Prop} (run : Run c key may past s)
    (leaves : ∀ s op, may s op → LeavesStatus key op) {first : Record σ}
    (read : .asked (.read key) (.ok (some first)) ∈ sitting past)
    (known : marked first.metadata.isDeletionRequested)
    (same : ∀ happening ∈ session past, happening.bears key = false ∧
      (happening.marks key = true → marked false → marked true)) :
    Lasting (fun requested _ => marked requested) key past s.store := by
  induction run with
  | start => cases read
  | @step past s t happening run step ih =>
      cases happening with
      | began | returned => cases read
      | outside op reply =>
          obtain ⟨⟨unborn, steady⟩, earlier⟩ := List.forall_mem_cons.mp same
          exact (ih read earlier).next run step leaves unborn (fun marks _ => steady marks)
            fun _ _ same => nomatch same
      | did deed =>
          obtain ⟨⟨unborn, steady⟩, earlier⟩ := List.forall_mem_cons.mp same
          obtain rfl | before := List.mem_cons.mp read
          · have found := (run.turns step).stored_of_read
            have upholds := run.upholds
            cases step with
            | ask answers =>
                refine ⟨fun r stored => ?_, fun deed done r shown => ?_⟩
                · cases found.symm.trans stored
                  exact known
                · rw [sitting, upholds.1.1, List.mem_singleton] at done
                  subst done
                  cases shown
                  exact known
          · refine (ih before earlier).next run step leaves unborn (fun marks _ => steady marks) ?_
            exact fun _ _ _ stored found => (ih before earlier).stored stored found

end Scene

end Steward
