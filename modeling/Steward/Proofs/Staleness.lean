import Steward.Proofs.Hand
import Steward.Proofs.Refusal

/-!
# Stale writes

Every write of the engine names the version of the record that it has in hand, and the store lets it
through only when it holds that version.  While one record stays under the key its version grows
with every change, so a write that goes through lands on the very record in hand, and one that is
refused ends the reconcile and leaves the store as the others left it.  Two things are beyond the
reach of versions: a new record under the key starts to count anew, and a count that has come to its
ceiling stays there.
-/

namespace Steward

open Deed

variable {σ : Type} {key : Key}

namespace Happening

theorem bears_of_shows {happening : Happening σ} (shows : happening.shows = true) :
    happening.bears key = false := by
  cases happening with
  | did => rfl
  | outside | began | returned => cases shows

end Happening

/-! ## Versions -/

namespace Store

variable [DecidableEq σ] {op : StoreOp σ} {stored after : Record σ}

theorem Becomes.eq_or_next (becomes : Becomes key op (some stored) (some after)) :
    after = stored ∨
      after.metadata.resourceVersion = Counter.next stored.metadata.resourceVersion := by
  generalize found : some after = result at becomes
  cases becomes with
  | unchanged =>
      cases found
      exact .inl rfl
  | respecified | annotated | marked =>
      cases found
      exact .inr rfl
  | dropped => cases found
  | updated | statusUpdated =>
      split at found <;> cases found
      exact .inr rfl

/-- A write is refused and changes no record, or it is based on the stored record. -/
theorem Answers.write_cases {s t : Store σ} {query : Query σ} {answer : query.Answer}
    (answers : s.Answers query answer t) {incoming : Record σ}
    (written : query.written? = some incoming) :
    (∃ fault, answer = query.refusal fault ∧ t.records = s.records) ∨
    ∃ w stored, (Deed.asked query answer).record? = some w ∧
      s.records[incoming.key]? = some stored ∧
      stored.metadata.resourceVersion = incoming.metadata.resourceVersion := by
  cases answers with
  | read | readStatus => cases written
  | writeMetadata =>
      cases written
      obtain ⟨fault, refused, same⟩ | ⟨stored, found, based, granted, _⟩ :=
        writeWith_cases s "update" incoming (rewritten incoming)
      · exact .inl ⟨fault, refused, same⟩
      · exact .inr ⟨_, stored, by rw [update_eq, granted]; rfl, found, based⟩
  | writeStatus =>
      cases written
      obtain ⟨fault, refused, same⟩ | ⟨stored, found, based, granted, _⟩ :=
        writeWith_cases s "update_status" incoming (restated incoming)
      · exact .inl ⟨fault, refused, same⟩
      · exact .inr ⟨_, stored, by rw [updateStatus_eq, granted]; rfl, found, based⟩

end Store

namespace View

variable [DecidableEq σ] {happening : Happening σ} {v w : View σ}

/-- The stored record is the one in hand or has a higher version, unless the version in hand has
come to the ceiling. -/
def Current (v : View σ) : Prop :=
  ∀ held stored, v.held = some held → v.stored = some stored →
    held.metadata.resourceVersion < Counter.ceiling →
      stored = held ∨ held.metadata.resourceVersion < stored.metadata.resourceVersion

theorem Turns.current (turns : Turns key happening v w) (unborn : happening.bears key = false)
    (current : happening.shows = false → v.Current) : w.Current := by
  cases turns with
  | @outside op reply before after held becomes files =>
      intro hand stored shown found counted
      obtain rfl : after = some stored := found
      cases before with
      | none => cases (files rfl nofun).symm.trans unborn
      | some earlier =>
          have known := current rfl hand earlier shown rfl counted
          obtain rfl | next := becomes.eq_or_next
          · exact known
          · right
            rw [next]
            unfold Counter.next Counter.capped
            obtain rfl | older := known <;> omega
  | began | returned =>
      intro hand stored none
      cases none
  | found =>
      intro hand stored shown found _
      cases shown.symm.trans found
      exact .inl rfl
  | unseen unseen => exact current (by rw [Happening.shows, unseen]; rfl)
  | rewritten _ lands | restated _ lands =>
      intro hand stored shown found _
      obtain rfl := eq_of_lands lands found
      cases shown
      exact .inl rfl

end View

namespace Scene

variable [DecidableEq σ] {c : Controller σ} {may : Custom σ}
variable {past : List (Happening σ)} {s t : Scene σ} {happening : Happening σ}

omit [DecidableEq σ] in
/-- Since the record in hand was shown, a record was filed under the key. -/
def replaced (key : Key) : List (Happening σ) → Bool
  | [] => false
  | happening :: past => !happening.shows && (happening.bears key || replaced key past)

/-- As long as the record in hand was not replaced, the stored record is the one in hand or has a
higher version. -/
theorem Run.current (run : Run c key may past s) (unreplaced : replaced key past = false) :
    (view key past s.store).Current := by
  induction run with
  | start =>
      intro held stored none
      cases none
  | @step past s t happening run step ih =>
      rw [replaced, Bool.and_eq_false_iff, Bool.not_eq_false', Bool.or_eq_false_iff] at unreplaced
      obtain shows | ⟨unborn, unreplaced⟩ := unreplaced
      · refine (run.turns step).current (Happening.bears_of_shows shows) fun hidden => ?_
        cases shows.symm.trans hidden
      · exact (run.turns step).current unborn fun _ => ih unreplaced

/-- What is left of the reconcile ends with the fault of the first query that is refused. -/
def Heedful : Engine σ → Prop
  | .idle => True
  | .running rest => rest.Heeds
  | .calling call resume => ∀ ending : call.Ending, (resume ending).Heeds

theorem Run.heedful (run : Run c key may past s) : Heedful s.engine := by
  induction run with
  | start => exact trivial
  | step _ step ih =>
      cases step with
      | outside => exact ih
      | begin => exact c.reconcile_heeds key
      | ask => exact ih.2 _
      | issue => exact ih
      | finish _ ending => exact ih ending
      | report => exact ih
      | stop => exact trivial

/-- What the engine asks is in its conduct, and the store answers it. -/
theorem Run.asked (run : Run c key may past s) {query : Query σ} {answer : query.Answer}
    (step : Step c key may s (.did (.asked query answer)) t) :
    (c.conduct key).asks (sitting past) query ∧ s.store.Answers query answer t.store := by
  have upholds := run.upholds
  cases step with
  | ask answers => exact ⟨upholds.1, answers⟩

/-- A query that is refused ends the reconcile. -/
theorem Run.refused (run : Run c key may past s) {query : Query σ} {fault : Fault}
    (step : Step c key may s (.did (.asked query (query.refusal fault))) t) :
    t.engine = .running (.done (.error fault)) := by
  have heedful := run.heedful
  cases step with
  | ask => exact congrArg Engine.running (heedful.1 fault)

/-- A write of the engine goes through only if the stored record is the very record that it has in
hand; otherwise it is refused, and then it changes no record and ends the reconcile.  For this the
record in hand must not have been replaced by a new one, and its version must be below the
ceiling. -/
theorem write_lands_on_record_in_hand (run : Run c key may past s) {query : Query σ}
    {answer : query.Answer} (step : Step c key may s (.did (.asked query answer)) t)
    {incoming : Record σ} (written : query.written? = some incoming)
    (unreplaced : replaced key past = false)
    (counted : incoming.metadata.resourceVersion < Counter.ceiling) :
    ∃ held, inHand (sitting past) = some held ∧ held.key = key ∧
      ((s.store.records[key]? = some held ∧ ∃ w, (Deed.asked query answer).record? = some w) ∨
        ∃ fault, answer = query.refusal fault ∧ t.store.records = s.store.records ∧
          t.engine = .running (.done (.error fault))) := by
  obtain ⟨asks, answers⟩ := run.asked step
  obtain ⟨held, hand, own, rfl, version⟩ := c.of_written asks written
  refine ⟨held, hand, own, ?_⟩
  have current := run.current unreplaced
  obtain ⟨fault, rfl, same⟩ | ⟨w, stored, shown, found, based⟩ := answers.write_cases written
  · exact .inr ⟨fault, rfl, same, run.refused step⟩
  · refine .inl ⟨?_, w, shown⟩
    rw [version] at counted based
    obtain rfl | newer := current held stored hand found counted
    · exact found
    · omega

/-- Someone annotates the record while its create is under way, and the status of the create is
refused. -/
theorem write_lands_on_record_in_hand_of_sample :
    ∃ past s query answer t incoming,
      Run sample sampleKey (fun _ _ => True) past s ∧
      Step sample sampleKey (fun _ _ => True) s (.did (.asked query answer)) t ∧
      query.written? = some incoming ∧ replaced sampleKey past = false ∧
      incoming.metadata.resourceVersion < Counter.ceiling ∧
      ∃ fault, answer = query.refusal fault ∧ t.store.records = s.store.records ∧
        t.engine = .running (.done (.error fault)) := by
  have created : Run sample sampleKey (fun _ _ => True) _ _ :=
    .step .start (.outside sampleInstant (.create sampleRecord) trivial)
  have secured := ((created.step .begin).step (.ask (.read _ sampleKey))).step
    (.ask (.writeMetadata _ _))
  have annotated := (secured.step .issue).step
    (.outside sampleInstant (.annotate sampleKey "team" "blue") trivial)
  have answered := annotated.step (.finish .create (some (.ok ⟨.awaitingVerification, none⟩)))
  obtain ⟨held, hand, _, ⟨found, _⟩ | refused⟩ :=
    write_lands_on_record_in_hand answered (.ask (.writeStatus _ _)) rfl rfl (by decide)
  · have stored := congrArg (Option.map fun r => r.metadata.resourceVersion) (found.trans hand.symm)
    exact absurd stored (by decide +kernel)
  · exact ⟨_, _, _, _, _, _, answered, .ask (.writeStatus _ _), rfl, rfl, by decide, refused⟩

/-- Another record under the same key. -/
def successor : Record Plain := { metadata := { key := sampleKey }, spec := { id := "vm-2" } }

/-- While a create is under way the record is freed and dropped, and another one is filed under its
key.  Both count from one, and the status of the create lands on the record that it is not about. -/
theorem stale_status_lands_on_successor :
    ∃ past s query answer t incoming w held stored,
      Run sample sampleKey (fun _ _ => True) past s ∧
      Step sample sampleKey (fun _ _ => True) s (.did (.asked query answer)) t ∧
      query.written? = some incoming ∧ (Deed.asked query answer).record? = some w ∧
      inHand (sitting past) = some held ∧ held.spec.id = "vm-1" ∧
      s.store.records[sampleKey]? = some stored ∧ stored.spec.id = "vm-2" ∧
      stored.status = {} ∧
      t.store.records[sampleKey]? = some w ∧ w.spec.id = "vm-2" ∧
      w.status.operation = some .create := by
  have created : Run sample sampleKey (fun _ _ => True) _ _ :=
    .step .start (.outside sampleInstant (.create guardedSample) trivial)
  have issued := ((created.step .begin).step (.ask (.read _ sampleKey))).step .issue
  have freed := issued.step (.outside sampleInstant
    (.update { guardedSample with metadata := { key := sampleKey } } true) trivial)
  have dropped := freed.step (.outside sampleInstant (.requestDeletion sampleKey) trivial)
  have refiled := dropped.step (.outside sampleInstant (.create successor) trivial)
  have answered := refiled.step (.finish .create (some (.ok ⟨.succeeded, none⟩)))
  exact ⟨_, _, _, _, _, _, _, _, _, answered, .ask (.writeStatus _ _), rfl, rfl, rfl, rfl, rfl, rfl,
    rfl, rfl, rfl, rfl⟩

end Scene

end Steward
