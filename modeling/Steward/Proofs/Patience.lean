import Steward.Proofs.Lasting

/-!
# Waiting for what was accepted

That a create or a delete was accepted, and is awaited, is nowhere written down as such: it is told
from the operation and the phase in the status.  As long as nothing overwrites that phase, what was
accepted is probed for and not issued again.  Two things overwrite it.  A probe that fails leaves a
deletion failed, which a failed delete does too, and a record whose references are not ready is
pending, whether or not a create is under way.
-/

namespace Steward

open Deed Controller Scene

variable {σ : Type} {c : Controller σ} {key : Key}

variable {status : Status} {deleting : Bool} {permissions : Permissions} {r : Record σ}
variable {ended : List Ended} {t : Transition}

namespace Controller

/-- A call that changes the resource is the last one. -/
theorem Concludes.eq_cons {call : Call} {ending : call.Ending}
    (concludes : c.Concludes permissions r deleting ended t) (done : ⟨call, ending⟩ ∈ ended)
    (mutates : call ≠ .verify) : ∃ before, ended = ⟨call, ending⟩ :: before := by
  cases concludes with
  | invalid | waits => cases done
  | denied due => exact absurd (due.probes _ done) mutates
  | probeFailed | settled | polled =>
      cases List.mem_singleton.mp done
      exact absurd rfl mutates
  | created due | updated due | deleted due =>
      obtain same | earlier := List.mem_cons.mp done
      · exact ⟨_, congrArg (· :: _) same.symm⟩
      · exact absurd (due.probes _ earlier) mutates

theorem Concludes.of_created {answer : Except String (Response ApplyResult)}
    (concludes : c.Concludes permissions r deleting ended t)
    (done : ⟨.create, some answer⟩ ∈ ended) :
    deleting = false ∧ t = .afterApply .create answer := by
  obtain ⟨before, rfl⟩ := concludes.eq_cons done nofun
  cases concludes with
  | denied due => cases due.probes _ done
  | created => exact ⟨rfl, rfl⟩

theorem Concludes.of_deleted {answer : Except String DeleteResult}
    (concludes : c.Concludes permissions r deleting ended t)
    (done : ⟨.delete, some answer⟩ ∈ ended) :
    deleting = true ∧ (DeletionProgress.ofDelete answer).transition? = some t := by
  obtain ⟨before, rfl⟩ := concludes.eq_cons done nofun
  cases concludes with
  | denied due => cases due.probes _ done
  | deleted _ _ progress => exact ⟨rfl, progress⟩

end Controller

/-- What a probe answers, if one is answered, is as expected. -/
def Happening.finds (expected : Except String Condition → Bool) : Happening σ → Bool
  | .did (.ended .verify (some answer)) => expected (answer.map Response.result)
  | _ => true

/-! ## A delete that was accepted -/

/-- The probe neither failed nor found that the resource failed. -/
def unharmed : Except String Condition → Bool
  | .error _ | .ok .error => false
  | _ => true

/-- What is written down of a delete that is awaited. -/
structure AwaitsDelete (requested : Bool) (status : Status) : Prop where
  requested : requested = true
  operation : status.operation = some .delete
  phase : status.phase = some .inProgress

namespace AwaitsDelete

def transition : Transition := (Transition.inProgress "deleting resource").issued .delete

theorem apply (previous : Status) : AwaitsDelete true (transition.apply previous) where
  requested := rfl
  operation := operation_apply _ _
  phase := phase_apply _ _

/-- A delete that is awaited is polled. -/
theorem due {requested : Bool} (awaits : AwaitsDelete requested status) {call : Call}
    (due : Due status true ended call) : call = .verify := by
  cases due with
  | poll => rfl
  | delete unissued => exact absurd awaits.operation unissued
  | reissue _ present =>
      rename_i found _ _
      rw [awaits.phase] at present
      cases found <;> cases present

/-- Unless the probe fails, the delete is awaited further. -/
theorem concludes {requested : Bool} (awaits : AwaitsDelete requested r.status)
    (concludes : c.Concludes permissions r true ended t)
    (sound : ∀ answer, ⟨.verify, some answer⟩ ∈ ended →
      unharmed (answer.map Response.result) = true) : t = transition := by
  cases concludes with
  | deleted due => cases awaits.due due
  | polled due answer progress =>
      have sound := sound answer List.mem_cons_self
      rw [awaits.phase] at progress
      obtain message | ⟨found, payload⟩ := answer
      · cases sound
      cases found with
      | error => cases sound
      | missing => cases progress
      | ready | updateRequired | inProgress | deleting =>
          cases progress
          rfl

end AwaitsDelete

namespace Scene

variable [DecidableEq σ] {newer older : List (Happening σ)} {outcome : Outcome} {s : Scene σ}

/-- After a delete was accepted, the status says so. -/
theorem Run.awaitsDelete
    (run : Run c key (fun _ op => LeavesStatus key op) (.returned (.ok outcome) :: older) s)
    (accepted : .ended .delete (some (.ok .awaitingVerification)) ∈ sitting older)
    (same : ∀ happening ∈ session older, happening.bears key = false) :
    Lasting AwaitsDelete key (.returned (.ok outcome) :: older) s.store := by
  cases run with
  | step run step =>
      have done := mem_endings.mpr accepted
      obtain ⟨first, permissions, r, t, read, concludes, written⟩ :=
        run.concluded step (fun _ _ leaves => leaves) same fun frees => by
          obtain verify | succeeded := frees _ done
          · cases verify
          · cases succeeded
      obtain ⟨requested, progress⟩ := concludes.of_deleted done
      cases progress
      have marked : Lasting (fun requested _ => requested = true) key older _ :=
        run.lasting_of_read (fun _ _ leaves => leaves) read requested
          fun happening member => ⟨same happening member, fun _ _ => rfl⟩
      cases step with
      | stop =>
          refine ⟨fun stored found => ?_, fun _ none => nomatch none⟩
          rw [written stored found, marked.stored stored found]
          exact .apply _

omit [DecidableEq σ] in
/-- What ended in the reconcile that is under way is part of the newer history. -/
theorem did_of_endings {result : Except Fault Outcome} {call : Call} {ending : call.Ending}
    (done : ⟨call, ending⟩ ∈ endings (sitting (newer ++ .returned result :: older))) :
    .did (.ended call ending) ∈ newer := by
  rw [mem_endings, sitting_append_returned] at done
  exact mem_of_mem_sitting done

/-- As long as a delete is awaited, and no probe fails, it stays so and is not issued again. -/
theorem Lasting.next_of_awaitsDelete {past : List (Happening σ)} {s t : Scene σ}
    {happening : Happening σ} (lasting : Lasting AwaitsDelete key past s.store)
    (run : Run c key (fun _ op => LeavesStatus key op) past s)
    (step : Step c key (fun _ op => LeavesStatus key op) s happening t)
    (unborn : happening.bears key = false)
    (sound : ∀ answer, ⟨.verify, some answer⟩ ∈ endings (sitting past) →
      unharmed (answer.map Response.result) = true) :
    Lasting AwaitsDelete key (happening :: past) t.store ∧
      ∀ id spec, happening ≠ .did (.issued .delete id spec) := by
  constructor
  · refine lasting.next run step (fun _ _ leaves => leaves) unborn
      (fun _ _ awaits => nomatch awaits.requested) ?_
    rintro incoming answer rfl stored found
    obtain ⟨deleting, permissions, r, t, standing, concludes, rfl⟩ := run.concludes step
    obtain ⟨⟨_, read⟩, awaits⟩ := lasting.standing standing
    obtain rfl := read.requested
    obtain rfl := awaits.concludes concludes sound
    rw [(lasting.stored stored found).requested]
    exact .apply _
  · rintro id spec rfl
    obtain ⟨deleting, permissions, r, standing, due⟩ := run.due step
    obtain ⟨⟨_, read⟩, awaits⟩ := lasting.standing standing
    obtain rfl := read.requested
    cases awaits.due due

theorem Run.awaitsDelete_lasts
    (run : Run c key (fun _ op => LeavesStatus key op)
      (newer ++ .returned (.ok outcome) :: older) s)
    (accepted : .ended .delete (some (.ok .awaitingVerification)) ∈ sitting older)
    (same : ∀ happening ∈ newer ++ session older, happening.bears key = false)
    (sound : ∀ happening ∈ newer, happening.finds unharmed = true) :
    Lasting AwaitsDelete key (newer ++ .returned (.ok outcome) :: older) s.store ∧
      ∀ id spec, .did (.issued .delete id spec) ∉ newer := by
  induction newer generalizing s with
  | nil => exact ⟨run.awaitsDelete accepted same, fun _ _ none => nomatch none⟩
  | cons newest newer ih =>
      cases run with
      | step run step =>
          obtain ⟨unborn, same⟩ := List.forall_mem_cons.mp same
          obtain ⟨_, sound⟩ := List.forall_mem_cons.mp sound
          obtain ⟨lasting, earlier⟩ := ih run same sound
          obtain ⟨lasting, newest⟩ := lasting.next_of_awaitsDelete run step unborn
            fun answer done => sound _ (did_of_endings done)
          refine ⟨lasting, fun id spec issued => ?_⟩
          obtain now | before := List.mem_cons.mp issued
          · exact newest id spec now.symm
          · exact earlier id spec before

/-- Once a delete was accepted in a reconcile that returned, and as long as no new record is filed
under the key and no probe fails, no delete is issued. -/
theorem accepted_delete_not_reissued
    (run : Run c key (fun _ op => LeavesStatus key op)
      (newer ++ .returned (.ok outcome) :: older) s)
    (accepted : .ended .delete (some (.ok .awaitingVerification)) ∈ sitting older)
    (same : ∀ happening ∈ newer ++ session older, happening.bears key = false)
    (sound : ∀ happening ∈ newer, happening.finds unharmed = true) :
    ∀ id spec, .did (.issued .delete id spec) ∉ newer :=
  (run.awaitsDelete_lasts accepted same sound).2

/-- A delete is accepted, and a probe still finds the resource ready: it is waited for. -/
theorem accepted_delete_not_reissued_of_sample :
    ∃ newer older outcome s,
      Run sample sampleKey (fun _ op => LeavesStatus sampleKey op)
        (newer ++ .returned (.ok outcome) :: older) s ∧
      .ended .delete (some (.ok .awaitingVerification)) ∈ sitting older ∧
      (∀ happening ∈ newer ++ session older, happening.bears sampleKey = false) ∧
      (∀ happening ∈ newer, happening.finds unharmed = true) ∧
      .did (.ended .verify (some (.ok ⟨.ready, none⟩))) ∈ newer ∧
      ∀ id spec, .did (.issued .delete id spec) ∉ newer := by
  have created : Run sample sampleKey (fun _ op => LeavesStatus sampleKey op) _ _ :=
    .step .start (.outside sampleInstant (.create guardedSample) fun _ => rfl)
  have requested := created.step (.outside sampleInstant (.requestDeletion sampleKey) trivial)
  have issued := ((requested.step .begin).step (.ask (.read _ sampleKey))).step .issue
  have awaited := issued.step (.finish .delete (some (.ok .awaitingVerification)))
  have marked := (awaited.step (.ask (.writeStatus _ _))).step .stop
  have probing := ((marked.step .begin).step (.ask (.read _ sampleKey))).step .issue
  have probed : Run sample sampleKey _ ([_, _, _, _] ++ .returned (.ok _) :: _) _ :=
    probing.step (.finish .verify (some (.ok ⟨.ready, none⟩)))
  exact ⟨_, _, _, _, probed, List.mem_cons_of_mem _ List.mem_cons_self, by decide, by decide,
    List.mem_cons_self, accepted_delete_not_reissued probed
      (List.mem_cons_of_mem _ List.mem_cons_self) (by decide) (by decide)⟩

/-- A delete is accepted, a probe fails, and the next one finds the resource ready: the delete that
was accepted is taken for one that failed, and issued again. -/
theorem accepted_delete_reissued_after_failed_probe :
    ∃ newer older outcome s,
      Run sample sampleKey (fun _ op => LeavesStatus sampleKey op)
        (newer ++ .returned (.ok outcome) :: older) s ∧
      .ended .delete (some (.ok .awaitingVerification)) ∈ sitting older ∧
      (∀ happening ∈ newer ++ session older, happening.bears sampleKey = false) ∧
      .did (.issued .delete "vm-1" guardedSample.spec) ∈ newer := by
  have created : Run sample sampleKey (fun _ op => LeavesStatus sampleKey op) _ _ :=
    .step .start (.outside sampleInstant (.create guardedSample) fun _ => rfl)
  have requested := created.step (.outside sampleInstant (.requestDeletion sampleKey) trivial)
  have issued := ((requested.step .begin).step (.ask (.read _ sampleKey))).step .issue
  have awaited := issued.step (.finish .delete (some (.ok .awaitingVerification)))
  have marked := (awaited.step (.ask (.writeStatus _ _))).step .stop
  have probing := ((marked.step .begin).step (.ask (.read _ sampleKey))).step .issue
  have failed := probing.step (.finish .verify (some (.error "failed to verify resource")))
  have noted := ((failed.step (.ask (.writeStatus _ _))).step .report).step .stop
  have again := ((noted.step .begin).step (.ask (.read _ sampleKey))).step .issue
  have found := again.step (.finish .verify (some (.ok ⟨.ready, none⟩)))
  have reissued : Run sample sampleKey _
      ([_, _, _, _, _, _, _, _, _, _, _, _] ++ .returned (.ok _) :: _) _ := found.step .issue
  exact ⟨_, _, _, _, reissued, List.mem_cons_of_mem _ List.mem_cons_self, by decide,
    List.mem_cons_self⟩

end Scene

/-! ## A create that was accepted -/

/-- The resource is not there yet, or it is being made. -/
def unfinished : Except String Condition → Bool
  | .ok .missing | .ok .inProgress => true
  | _ => false

/-- What is written down of a create that is awaited, or that was and now waits for references. -/
structure AwaitsCreate (requested : Bool) (status : Status) : Prop where
  stays : requested = false
  operation : status.operation = some .create
  phase : status.phase = some .inProgress ∨ status.phase = some .pending

/-- The record that was shown waits for its references. -/
def Deed.showsPending (deed : Deed σ) : Bool :=
  deed.record?.any fun r => r.status.phase == some .pending

/-- A probe found no resource. -/
def Deed.findsNothing : Deed σ → Bool
  | .ended .verify (some (.ok ⟨.missing, _⟩)) => true
  | _ => false

/-- In some reconcile of the history a record was shown pending, and its resource was found to be
missing. -/
def Scene.overtaken : List (Happening σ) → Bool
  | [] => false
  | happening :: past =>
      (sitting (happening :: past)).any Deed.showsPending &&
        (sitting (happening :: past)).any Deed.findsNothing || overtaken past

/-- The definition does not find the record invalid. -/
def Controller.accepts (c : Controller σ) (r : Record σ) : Bool :=
  match c.definition.references r with
  | .error (.invalidInstance _ _) => false
  | _ => true

/-- The record that is shown, if one is, fits. -/
def Happening.showsFit (fits : Record σ → Bool) : Happening σ → Bool
  | .did deed => deed.record?.all fits
  | _ => true

namespace AwaitsCreate

/-- A create that is awaited is not issued, and what is not yet made is not updated. -/
theorem due {requested : Bool} (awaits : AwaitsCreate requested status) {call : Call}
    (due : Due status false ended call)
    (patient : ∀ answer, ⟨.verify, some answer⟩ ∈ ended →
      unfinished (answer.map Response.result) = true) : call = .verify := by
  cases due with
  | probe => rfl
  | create unissued => cases unissued.symm.trans awaits.operation
  | apply issued verdict =>
      rename_i found payload operation
      have patient := patient _ List.mem_cons_self
      cases found with
      | ready | updateRequired | deleting | error => cases patient
      | inProgress => cases verdict
      | missing => obtain phase | phase := awaits.phase <;> rw [phase] at verdict <;> cases verdict

/-- Unless the record is found invalid, or its resource missing while it waits for references, the
create is awaited further. -/
theorem concludes {requested : Bool} (awaits : AwaitsCreate requested r.status)
    (concludes : c.Concludes permissions r false ended t)
    (valid : c.accepts r = true)
    (patient : ∀ answer, ⟨.verify, some answer⟩ ∈ ended →
      unfinished (answer.map Response.result) = true)
    (calm : r.status.phase = some .pending →
      ∀ payload, ⟨.verify, some (.ok ⟨.missing, payload⟩)⟩ ∉ ended) :
    AwaitsCreate false (t.apply r.status) := by
  have apply {t : Transition} (unissued : t.operation = none)
      (phase : t.phase = .inProgress ∨ t.phase = .pending) : AwaitsCreate false (t.apply r.status) := by
    refine ⟨rfl, ?_, ?_⟩
    · rw [operation_apply, unissued]
      exact awaits.operation
    · rw [phase_apply]
      exact phase.imp (congrArg some) (congrArg some)
  cases concludes with
  | invalid invalid =>
      rw [accepts, invalid] at valid
      cases valid
  | waits => exact apply rfl (.inr rfl)
  | denied due =>
      rename_i operation _
      have probe := awaits.due due patient
      cases operation <;> cases probe
  | created due | updated due =>
      cases awaits.due due fun answer done => patient answer (List.mem_cons_of_mem _ done)
  | probeFailed => cases patient _ List.mem_cons_self
  | settled due verdict =>
      rename_i found payload t
      have patient := patient _ List.mem_cons_self
      cases found with
      | ready | updateRequired | deleting | error => cases patient
      | inProgress =>
          cases verdict
          exact apply rfl (.inl rfl)
      | missing =>
          obtain phase | phase := awaits.phase
          · rw [phase] at verdict
            cases verdict
            exact apply rfl (.inl rfl)
          · exact absurd List.mem_cons_self (calm phase payload)

end AwaitsCreate

namespace Scene

/-- In a history that is not overtaken, a reconcile with a pending record in hand does not find the
resource missing. -/
theorem not_missing_of_pending {past : List (Happening σ)} (calm : overtaken past = false)
    (hand : inHand (sitting past) = some r) (pending : r.status.phase = some .pending)
    (payload : Option Payload) :
    .ended .verify (some (.ok ⟨.missing, payload⟩)) ∉ sitting past := by
  intro missing
  obtain ⟨deed, done, shown⟩ := List.exists_of_findSome?_eq_some hand
  have waits : (sitting past).any Deed.showsPending = true := by
    refine List.any_eq_true.mpr ⟨deed, done, ?_⟩
    rw [Deed.showsPending, shown, Option.any_some, pending]
    rfl
  have nothing : (sitting past).any Deed.findsNothing = true :=
    List.any_eq_true.mpr ⟨_, missing, rfl⟩
  cases past with
  | nil => cases missing
  | cons newest past =>
      rw [overtaken, waits, nothing] at calm
      cases calm

theorem calm_of_cons {past : List (Happening σ)} {happening : Happening σ}
    (calm : overtaken (happening :: past) = false) : overtaken past = false :=
  (Bool.or_eq_false_iff.mp calm).2

variable [DecidableEq σ] {newer older : List (Happening σ)} {outcome : Outcome} {s : Scene σ}

/-- After a create was accepted, the status says so. -/
theorem Run.awaitsCreate {payload : Option Payload}
    (run : Run c key (fun _ op => LeavesStatus key op) (.returned (.ok outcome) :: older) s)
    (accepted : .ended .create (some (.ok ⟨.awaitingVerification, payload⟩)) ∈ sitting older)
    (same : ∀ happening ∈ session older,
      happening.bears key = false ∧ happening.marks key = false) :
    Lasting AwaitsCreate key (.returned (.ok outcome) :: older) s.store := by
  cases run with
  | step run step =>
      have done := mem_endings.mpr accepted
      obtain ⟨first, permissions, r, t, read, concludes, written⟩ :=
        run.concluded step (fun _ _ leaves => leaves)
          (fun happening member => (same happening member).1) fun frees => by
            obtain verify | succeeded := frees _ done
            · cases verify
            · cases succeeded
      obtain ⟨stays, rfl⟩ := concludes.of_created done
      have unmarked : Lasting (fun requested _ => requested = false) key older _ :=
        run.lasting_of_read (fun _ _ leaves => leaves) read stays fun happening member =>
          ⟨(same happening member).1, fun marks =>
            nomatch marks.symm.trans (same happening member).2⟩
      cases step with
      | stop =>
          refine ⟨fun stored found => ?_, fun _ none => nomatch none⟩
          rw [written stored found, unmarked.stored stored found]
          exact ⟨rfl, operation_apply _ _, .inl (phase_apply _ _)⟩

/-- As long as a create is awaited, and probes find nothing but that it is not finished, it stays so
and is not issued again. -/
theorem Lasting.next_of_awaitsCreate {past : List (Happening σ)} {s t : Scene σ}
    {happening : Happening σ} (lasting : Lasting AwaitsCreate key past s.store)
    (run : Run c key (fun _ op => LeavesStatus key op) past s)
    (step : Step c key (fun _ op => LeavesStatus key op) s happening t)
    (same : happening.bears key = false ∧ happening.marks key = false)
    (valid : ∀ r, inHand (sitting past) = some r → c.accepts r = true)
    (patient : ∀ answer, ⟨.verify, some answer⟩ ∈ endings (sitting past) →
      unfinished (answer.map Response.result) = true)
    (calm : ∀ r, inHand (sitting past) = some r → r.status.phase = some .pending →
      ∀ payload, ⟨.verify, some (.ok ⟨.missing, payload⟩)⟩ ∉ endings (sitting past)) :
    Lasting AwaitsCreate key (happening :: past) t.store ∧
      (∀ id spec, happening ≠ .did (.issued .create id spec)) ∧
      ∀ incoming answer, happening = .did (.asked (.writeStatus incoming) answer) →
        incoming.status.phase ≠ some .failed := by
  have written {incoming : Record σ} {answer : (Query.writeStatus incoming).Answer}
      (same : happening = .did (.asked (.writeStatus incoming) answer)) :
      AwaitsCreate false incoming.status := by
    subst same
    obtain ⟨deleting, permissions, r, t, standing, concludes, rfl⟩ := run.concludes step
    obtain ⟨⟨_, read⟩, awaits⟩ := lasting.standing standing
    obtain rfl := read.stays
    exact awaits.concludes concludes (valid r standing.hand) patient (calm r standing.hand)
  refine ⟨?_, ?_, fun incoming answer same failed => ?_⟩
  · refine lasting.next run step (fun _ _ leaves => leaves) same.1
      (fun marks => nomatch marks.symm.trans same.2) fun incoming answer same stored found => ?_
    rw [(lasting.stored stored found).stays]
    exact written same
  · rintro id spec rfl
    obtain ⟨deleting, permissions, r, standing, due⟩ := run.due step
    obtain ⟨⟨_, read⟩, awaits⟩ := lasting.standing standing
    obtain rfl := read.stays
    cases awaits.due due patient
  · obtain phase | phase := (written same).phase <;> cases phase.symm.trans failed

theorem Run.awaitsCreate_lasts {payload : Option Payload}
    (run : Run c key (fun _ op => LeavesStatus key op)
      (newer ++ .returned (.ok outcome) :: older) s)
    (accepted : .ended .create (some (.ok ⟨.awaitingVerification, payload⟩)) ∈ sitting older)
    (same : ∀ happening ∈ newer ++ session older,
      happening.bears key = false ∧ happening.marks key = false)
    (valid : ∀ happening ∈ newer, happening.showsFit c.accepts = true)
    (patient : ∀ happening ∈ newer, happening.finds unfinished = true)
    (calm : overtaken newer = false) :
    Lasting AwaitsCreate key (newer ++ .returned (.ok outcome) :: older) s.store ∧
      (∀ id spec, .did (.issued .create id spec) ∉ newer) ∧
      ∀ incoming answer, .did (.asked (.writeStatus incoming) answer) ∈ newer →
        incoming.status.phase ≠ some .failed := by
  induction newer generalizing s with
  | nil =>
      exact ⟨run.awaitsCreate accepted same, (fun _ _ none => nomatch none),
        (fun _ _ none => nomatch none)⟩
  | cons newest newer ih =>
      cases run with
      | step run step =>
          obtain ⟨newestSame, same⟩ := List.forall_mem_cons.mp same
          obtain ⟨_, valid⟩ := List.forall_mem_cons.mp valid
          obtain ⟨_, patient⟩ := List.forall_mem_cons.mp patient
          have calm := calm_of_cons calm
          obtain ⟨lasting, uncalled, unfailed⟩ := ih run same valid patient calm
          obtain ⟨lasting, newestUncalled, newestUnfailed⟩ :=
            lasting.next_of_awaitsCreate run step newestSame
              (fun r hand => by
                rw [sitting_append_returned] at hand
                obtain ⟨deed, done, shown⟩ := List.exists_of_findSome?_eq_some hand
                have fits := valid _ (mem_of_mem_sitting done)
                rw [Happening.showsFit, shown] at fits
                exact fits)
              (fun answer done => patient _ (did_of_endings done))
              (fun r hand pending payload => by
                rw [mem_endings, sitting_append_returned]
                rw [sitting_append_returned] at hand
                exact not_missing_of_pending calm hand pending payload)
          refine ⟨lasting, fun id spec issued => ?_, fun incoming answer asked => ?_⟩
          · obtain now | before := List.mem_cons.mp issued
            · exact newestUncalled id spec now.symm
            · exact uncalled id spec before
          · obtain now | before := List.mem_cons.mp asked
            · exact newestUnfailed incoming answer now.symm
            · exact unfailed incoming answer before

/-- Once a create was accepted in a reconcile that returned, and as long as the record stays, probes
find its resource missing or being made, and missing only while the record is not pending, no
create is issued and no failure is written down. -/
theorem accepted_create_not_reissued {payload : Option Payload}
    (run : Run c key (fun _ op => LeavesStatus key op)
      (newer ++ .returned (.ok outcome) :: older) s)
    (accepted : .ended .create (some (.ok ⟨.awaitingVerification, payload⟩)) ∈ sitting older)
    (same : ∀ happening ∈ newer ++ session older,
      happening.bears key = false ∧ happening.marks key = false)
    (valid : ∀ happening ∈ newer, happening.showsFit c.accepts = true)
    (patient : ∀ happening ∈ newer, happening.finds unfinished = true)
    (calm : overtaken newer = false) :
    (∀ id spec, .did (.issued .create id spec) ∉ newer) ∧
      ∀ incoming answer, .did (.asked (.writeStatus incoming) answer) ∈ newer →
        incoming.status.phase ≠ some .failed :=
  (run.awaitsCreate_lasts accepted same valid patient calm).2

/-- A record that has an owner. -/
def ownedSample : Record Linked :=
  { metadata := { key := sampleKey, finalizers := ["b.finalizers.com"] }
    spec := { id := "vm-1", owner := "net" } }

/-- The status of an owner that is ready. -/
def readyOwner : Status := { phase := some .succeeded }

/-- A create is accepted, the owner is lost sight of for a while, and when it is back the resource
is still being made: it is waited for. -/
theorem accepted_create_not_reissued_of_sample :
    ∃ newer older outcome s,
      Run linkedSample sampleKey (fun _ op => LeavesStatus sampleKey op)
        (newer ++ .returned (.ok outcome) :: older) s ∧
      .ended .create (some (.ok ⟨.awaitingVerification, none⟩)) ∈ sitting older ∧
      (∀ happening ∈ newer ++ session older,
        happening.bears sampleKey = false ∧ happening.marks sampleKey = false) ∧
      (∀ happening ∈ newer, happening.showsFit linkedSample.accepts = true) ∧
      (∀ happening ∈ newer, happening.finds unfinished = true) ∧
      overtaken newer = false ∧
      newer.all (Happening.showsFit fun r => r.status.phase != some .pending) = false ∧
      .did (.ended .verify (some (.ok ⟨.inProgress, none⟩))) ∈ newer ∧
      (∀ id spec, .did (.issued .create id spec) ∉ newer) ∧
      ∀ incoming answer, .did (.asked (.writeStatus incoming) answer) ∈ newer →
        incoming.status.phase ≠ some .failed := by
  have created : Run linkedSample sampleKey (fun _ op => LeavesStatus sampleKey op) _ _ :=
    .step .start (.outside sampleInstant (.create ownedSample) fun _ => rfl)
  have read := (created.step .begin).step (.ask (.read _ sampleKey))
  have issued := (read.step (.ask (.readStatus _ _ (.ok (some readyOwner)) 0))).step .issue
  have awaited := issued.step (.finish .create (some (.ok ⟨.awaitingVerification, none⟩)))
  have marked := (awaited.step (.ask (.writeStatus _ _))).step .stop
  have alone := ((marked.step .begin).step (.ask (.read _ sampleKey))).step
    (.ask (.readStatus _ _ (.ok none) 0))
  have pending := (alone.step (.ask (.writeStatus _ _))).step .stop
  have back := ((pending.step .begin).step (.ask (.read _ sampleKey))).step
    (.ask (.readStatus _ _ (.ok (some readyOwner)) 0))
  have probed : Run linkedSample sampleKey _
      ([_, _, _, _, _, _, _, _, _, _] ++ .returned (.ok _) :: _) _ :=
    (back.step .issue).step (.finish .verify (some (.ok ⟨.inProgress, none⟩)))
  have kept := accepted_create_not_reissued probed (List.mem_cons_of_mem _ List.mem_cons_self)
    (by decide) (by decide +kernel) (by decide) (by decide +kernel)
  exact ⟨_, _, _, _, probed, List.mem_cons_of_mem _ List.mem_cons_self, by decide,
    by decide +kernel, by decide, by decide +kernel, by decide +kernel, List.mem_cons_self, kept⟩

/-- A create is accepted, the owner is lost sight of for a while, and when it is back the resource
is not there yet.  That is taken for a failure, and the create is issued again. -/
theorem accepted_create_reissued_after_pending :
    ∃ newer older outcome s,
      Run linkedSample sampleKey (fun _ op => LeavesStatus sampleKey op)
        (newer ++ .returned (.ok outcome) :: older) s ∧
      .ended .create (some (.ok ⟨.awaitingVerification, none⟩)) ∈ sitting older ∧
      (∀ happening ∈ newer ++ session older,
        happening.bears sampleKey = false ∧ happening.marks sampleKey = false) ∧
      (∀ happening ∈ newer, happening.showsFit linkedSample.accepts = true) ∧
      (∀ happening ∈ newer, happening.finds unfinished = true) ∧
      .did (.issued .create "vm-1" ownedSample.spec) ∈ newer ∧
      ∃ incoming answer, .did (.asked (.writeStatus incoming) answer) ∈ newer ∧
        incoming.status.phase = some .failed := by
  have created : Run linkedSample sampleKey (fun _ op => LeavesStatus sampleKey op) _ _ :=
    .step .start (.outside sampleInstant (.create ownedSample) fun _ => rfl)
  have read := (created.step .begin).step (.ask (.read _ sampleKey))
  have issued := (read.step (.ask (.readStatus _ _ (.ok (some readyOwner)) 0))).step .issue
  have awaited := issued.step (.finish .create (some (.ok ⟨.awaitingVerification, none⟩)))
  have marked := (awaited.step (.ask (.writeStatus _ _))).step .stop
  have alone := ((marked.step .begin).step (.ask (.read _ sampleKey))).step
    (.ask (.readStatus _ _ (.ok none) 0))
  have pending := (alone.step (.ask (.writeStatus _ _))).step .stop
  have back := ((pending.step .begin).step (.ask (.read _ sampleKey))).step
    (.ask (.readStatus _ _ (.ok (some readyOwner)) 0))
  have missed := (back.step .issue).step (.finish .verify (some (.ok ⟨.missing, none⟩)))
  have failed := (missed.step (.ask (.writeStatus _ _))).step .report
  have again := ((failed.step .stop).step .begin).step (.ask (.read _ sampleKey))
  have probing := (again.step (.ask (.readStatus _ _ (.ok (some readyOwner)) 0))).step .issue
  have reissued : Run linkedSample sampleKey _
      ([_, _, _, _, _, _, _, _, _, _, _, _, _, _, _, _, _, _, _] ++ .returned (.ok _) :: _) _ :=
    (probing.step (.finish .verify (some (.ok ⟨.missing, none⟩)))).step .issue
  exact ⟨_, _, _, _, reissued, List.mem_cons_of_mem _ List.mem_cons_self, by decide,
    by decide +kernel, by decide, List.mem_cons_self, _, _, List.mem_of_getElem? (i := 8) rfl, rfl⟩

end Scene

end Steward
