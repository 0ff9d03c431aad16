import Steward.Proofs.Scene

/-!
# The finalizer comes before every call

The engine's finalizer is on the stored record whenever the reconcile has a record in hand that
carries it, because others leave it there, the store drops no record that has a finalizer, and the
engine takes it off in one place only.  Since every call is made for such a record, no call of a
manager is ever made for a record that the store could lose.
-/

namespace Steward

open Deed Scene

variable {σ : Type} {c : Controller σ} {key : Key}

namespace Controller

/-- The store holds a record under the key that carries the engine's finalizer. -/
def Guarded (c : Controller σ) (key : Key) (s : Store σ) : Prop :=
  ∃ r, s.records[key]? = some r ∧ c.Guards r

theorem guarded_iff {s : Store σ} :
    c.Guarded key s ↔
      s.records[key]?.any (fun r => r.metadata.hasFinalizer c.definition.finalizer) = true := by
  rw [Option.any_eq_true]
  rfl

instance (c : Controller σ) (key : Key) (s : Store σ) : Decidable (c.Guarded key s) :=
  decidable_of_iff _ guarded_iff.symm

/-- Nobody else takes the engine's finalizer off a record that carries it. -/
def KeepsFinalizer (c : Controller σ) (key : Key) : Custom σ := fun s op =>
  ∀ r latest, op = .update r latest → r.key = key → c.Guarded key s → c.Guards r

/-- The engine takes its finalizer off a record. -/
def TakesFinalizer (c : Controller σ) : Happening σ → Prop
  | .did (.asked (.writeMetadata incoming) (.ok _)) => ¬ c.Guards incoming
  | _ => False

theorem Guards.of_finalizers {r r' : Record σ} (guards : c.Guards r)
    (same : r'.metadata.finalizers = r.metadata.finalizers) : c.Guards r' := by
  rw [Guards, Metadata.hasFinalizer]
  rw [same]
  exact guards

end Controller

/-! ## What the store does to a guarded record -/

namespace Store

open Controller

variable [DecidableEq σ] {s t : Store σ}

theorem Becomes.guarded {op : StoreOp σ} {stored : Record σ} {after : Option (Record σ)}
    (becomes : Becomes key op (some stored) after) (guards : c.Guards stored)
    (keeps : ∀ r latest, op = .update r latest → r.key = key → c.Guards r) :
    ∃ r, after = some r ∧ c.Guards r := by
  cases becomes with
  | unchanged => exact ⟨stored, rfl, guards⟩
  | respecified => exact ⟨_, rfl, guards.of_finalizers rfl⟩
  | annotated => exact ⟨_, rfl, guards.of_finalizers rfl⟩
  | marked => exact ⟨_, rfl, guards.of_finalizers rfl⟩
  | dropped free => exact absurd free guards.finalizers_ne_nil
  | @updated _ r latest own _ =>
      have kept : c.Guards r := keeps r latest rfl own
      exact ⟨_, if_neg fun gone => kept.finalizers_ne_nil gone.2, kept.of_finalizers rfl⟩
  | statusUpdated =>
      exact ⟨_, if_neg fun gone => guards.finalizers_ne_nil gone.2, guards.of_finalizers rfl⟩

theorem Lawful.guarded {op : StoreOp σ} (lawful : Lawful s op t) (guarded : c.Guarded key s)
    (keeps : ∀ r latest, op = .update r latest → r.key = key → c.Guards r) :
    c.Guarded key t := by
  obtain ⟨stored, found, guards⟩ := guarded
  have becomes := lawful.becomes key
  rw [found] at becomes
  exact becomes.guarded guards keeps

omit [DecidableEq σ] in
theorem guarded_of_eq (guarded : c.Guarded key s) (same : t.records = s.records) :
    c.Guarded key t := by
  rw [Controller.Guarded]
  rw [same]
  exact guarded

theorem update_guarded (filed : s.Filed) {incoming : Record σ} (guarded : c.Guarded key s)
    (keeps : incoming.key = key → c.Guards incoming) : c.Guarded key (s.update incoming).2 :=
  (update_lawful filed incoming false).guarded guarded fun _ _ same own => by
    cases same
    exact keeps own

theorem updateStatus_guarded (filed : s.Filed) {incoming : Record σ}
    (guarded : c.Guarded key s) : c.Guarded key (s.updateStatus incoming).2 :=
  (updateStatus_lawful filed incoming false).guarded guarded fun _ _ same => by cases same

theorem update_records_of_error {incoming : Record σ} {fault : Fault}
    (refused : (s.update incoming).1 = .error fault) :
    (s.update incoming).2.records = s.records := by
  rw [update_eq] at refused ⊢
  obtain ⟨_, _, same⟩ | ⟨_, _, _, granted, _⟩ :=
    writeWith_cases s "update" incoming (rewritten incoming)
  · exact same
  · cases granted.symm.trans refused

/-- A key that is taken is not given to a new record. -/
theorem perform_create_ne_record (now : Instant) {r stored : Record σ} (own : r.key = key)
    (found : s.records[key]? = some stored) (answer : Record σ) :
    (s.perform now (.create r)).1 ≠ .record answer := by
  obtain ⟨fault, refused, _⟩ | ⟨free, _, _⟩ := create_cases s r
  · change (reply .record (s.create r)).1 ≠ .record answer
    rw [reply_fst_of_error .record refused]
    exact nofun
  · rw [own, found] at free
    cases free

end Store

/-! ## The life of a record -/

/-- A record is filed under the key. -/
def Happening.bears (key : Key) : Happening σ → Bool
  | .outside (.create r) (.record _) => r.key == key
  | _ => false

/-- What happened since the last record was filed under the key. -/
def Scene.life (key : Key) : List (Happening σ) → List (Happening σ)
  | [] => []
  | happening :: past => if happening.bears key then [] else happening :: life key past

/-- A deed after which the record must not be lost: a call, or the sight of the record with the
finalizer on it. -/
def Controller.Firm (c : Controller σ) (deed : Deed σ) : Prop :=
  (∃ call id spec, deed = .issued call id spec) ∨ ∃ r, deed.record? = some r ∧ c.Guards r

namespace Scene

variable [DecidableEq σ] {may : Custom σ}
variable {past : List (Happening σ)} {s t : Scene σ} {happening : Happening σ}

/-- Only the engine takes the finalizer off a record. -/
theorem Step.guarded (step : Step c key may s happening t)
    (keeps : ∀ s op, may s op → c.KeepsFinalizer key s op) (filed : s.store.Filed)
    (guarded : c.Guarded key s.store) (kept : ¬ c.TakesFinalizer happening) :
    c.Guarded key t.store := by
  cases step with
  | outside now op allowed =>
      exact (Store.perform_lawful filed now op).guarded guarded fun r latest same own =>
        keeps _ _ allowed r latest same own guarded
  | @ask s _ _ _ _ answers =>
      cases answers with
      | read k => exact Store.guarded_of_eq guarded (Store.get_records s k)
      | writeMetadata incoming =>
          cases answer : (s.update incoming).1 with
          | error fault =>
              exact Store.guarded_of_eq guarded (Store.update_records_of_error answer)
          | ok r =>
              rw [answer] at kept
              exact Store.update_guarded filed guarded fun _ => not_not.mp kept
      | writeStatus incoming => exact Store.updateStatus_guarded filed guarded
      | readStatus => exact Store.guarded_of_eq guarded rfl
  | begin | issue | finish | report | stop => exact guarded

/-- Under a key that is taken no new record is filed. -/
theorem Step.bears_eq_false (step : Step c key may s happening t) {stored : Record σ}
    (found : s.store.records[key]? = some stored) : happening.bears key = false := by
  cases step with
  | @outside s engine now op allowed =>
      cases op with
      | create r =>
          cases answer : (s.perform now (.create r)).1 with
          | record r' =>
              refine beq_eq_false_iff_ne.mpr fun own => ?_
              exact Store.perform_create_ne_record now own found r' answer
          | _ => rfl
      | _ => rfl
  | begin | ask | issue | finish | report | stop => rfl

/-- The record in hand is in the store, with the finalizer on it, and nothing that was done for it
was done for a record before it. -/
structure Anchored (c : Controller σ) (key : Key) (past : List (Happening σ)) (s : Store σ) :
    Prop where
  guarded : c.Guarded key s
  alive : ∀ deed ∈ sitting past, c.Firm deed → .did deed ∈ life key past

omit [DecidableEq σ] in
theorem life_cons {happening : Happening σ} (past : List (Happening σ))
    (unborn : happening.bears key = false) :
    life key (happening :: past) = happening :: life key past := by
  rw [life, unborn]
  rfl

omit [DecidableEq σ] in
/-- The engine takes the finalizer off by a write that shows it the record. -/
theorem record?_of_takesFinalizer {deed : Deed σ} (takes : c.TakesFinalizer (.did deed)) :
    ∃ r, deed.record? = some r := by
  unfold Controller.TakesFinalizer at takes
  split at takes
  next same =>
    cases same
    exact ⟨_, rfl⟩
  next => exact takes.elim

theorem Anchored.next (anchored : Anchored c key past s.store)
    (step : Step c key may s happening t) (keeps : ∀ s op, may s op → c.KeepsFinalizer key s op)
    (filed : s.store.Filed) (kept : ¬ c.TakesFinalizer happening) :
    Anchored c key (happening :: past) t.store where
  guarded := step.guarded keeps filed anchored.guarded kept
  alive := by
    intro deed done firm
    obtain ⟨stored, found, _⟩ := anchored.guarded
    rw [life_cons past (step.bears_eq_false found)]
    cases happening with
    | did newest =>
        obtain rfl | done := List.mem_cons.mp done
        · exact List.mem_cons_self
        · exact List.mem_cons_of_mem _ (anchored.alive deed done firm)
    | outside => exact List.mem_cons_of_mem _ (anchored.alive deed done firm)
    | began | returned => cases done

/-- A record that a store shows with the finalizer on it is anchored from then on. -/
theorem Anchored.shown {s t : Store σ} {query : Query σ} {answer : query.Answer}
    (answers : s.Answers query answer t) (filed : s.Filed)
    (asks : (c.conduct key).asks (sitting past) query)
    (before : ∀ r, inHand (sitting past) = some r → c.Guards r → Anchored c key past s)
    {r : Record σ} (shown : (Deed.asked query answer).record? = some r) (guards : c.Guards r) :
    Anchored c key (.did (.asked query answer) :: past) t := by
  have fits := answers.fits filed
  have own : r.key = key := c.key_of_shown asks fits shown
  have stored : t.records[key]? = some r :=
    own ▸ answers.shows filed shown guards.finalizers_ne_nil
  refine ⟨⟨r, stored, guards⟩, fun deed done firm => ?_⟩
  obtain rfl | earlier := List.mem_cons.mp done
  · exact List.mem_cons_self
  refine List.mem_cons_of_mem _ ?_
  cases query with
  | readStatus => cases shown
  | read k =>
      rw [asks.1] at earlier
      cases earlier
  | writeMetadata incoming =>
      cases answer with
      | error fault => cases shown
      | ok written =>
          cases shown
          have guardsIncoming : c.Guards incoming :=
            guards.of_finalizers (fits r rfl).2.2.2.symm
          obtain ⟨held, hand, _, secures | releases⟩ := asks
          -- Before its finalizer was added the record was seen once, without it.
          · rw [secures.read, List.mem_singleton] at earlier
            subst earlier
            obtain ⟨_, _, _, same⟩ | ⟨_, same, guardsHeld⟩ := firm <;> cases same
            exact absurd guardsHeld secures.unguarded
          -- The write that takes the finalizer off shows a record without it.
          · rw [releases.written] at guardsIncoming
            exact absurd guardsIncoming
              (Bool.eq_false_iff.mp (held.metadata.hasFinalizer_removeFinalizer _))
  | writeStatus incoming =>
      obtain ⟨held, hand, _, records⟩ := asks
      exact (before held hand records.guards).alive deed earlier firm

/-- The record in hand was in hand before, or the store just showed it. -/
theorem Run.hand_cases (run : Run c key may past s) (step : Step c key may s happening t)
    {r : Record σ} (hand : inHand (sitting (happening :: past)) = some r) :
    (inHand (sitting past) = some r ∧ ¬ c.TakesFinalizer happening) ∨
    ∃ query answer, happening = .did (.asked query answer) ∧
      (Deed.asked query answer).record? = some r ∧ s.store.Answers query answer t.store ∧
      (c.conduct key).asks (sitting past) query := by
  cases happening with
  | outside => exact .inl ⟨hand, id⟩
  | began | returned => cases hand
  | did deed =>
      cases shown : deed.record? with
      | none =>
          simp only [sitting, inHand_cons, shown, Option.none_or] at hand
          refine .inl ⟨hand, fun takes => ?_⟩
          obtain ⟨_, some⟩ := record?_of_takesFinalizer takes
          cases shown.symm.trans some
      | some seen =>
          simp only [sitting, inHand_cons, shown, Option.some_or] at hand
          have upholds := run.upholds
          cases step with
          | ask answers => exact .inr ⟨_, _, rfl, shown.trans hand, answers, upholds.1⟩
          | issue | finish | report => cases shown

/-- Whenever the reconcile has a record in hand that carries the finalizer, it is anchored. -/
theorem Run.anchored (run : Run c key may past s)
    (keeps : ∀ s op, may s op → c.KeepsFinalizer key s op) :
    ∀ r, inHand (sitting past) = some r → c.Guards r → Anchored c key past s.store := by
  induction run with
  | start => exact fun _ none => nomatch none
  | step run step ih =>
      intro r hand guards
      obtain ⟨old, kept⟩ | ⟨query, answer, rfl, shown, answers, asks⟩ := run.hand_cases step hand
      · exact (ih r old guards).next step keeps run.filed kept
      · exact .shown answers run.filed asks ih shown guards

omit [DecidableEq σ] in
/-- The record in hand was seen during the life of the record that is in the store now. -/
theorem Anchored.seen (anchored : Anchored c key past s.store) {r : Record σ}
    (hand : inHand (sitting past) = some r) (guards : c.Guards r) :
    ∃ deed, .did deed ∈ life key past ∧ deed.record? = some r := by
  obtain ⟨deed, done, shown⟩ := List.exists_of_findSome?_eq_some hand
  exact ⟨deed, anchored.alive deed done (.inr ⟨r, shown, guards⟩), shown⟩

/-- A call is made for the record in hand. -/
theorem Run.calls (run : Run c key may past s) {call : Call} {id : String} {spec : σ}
    (step : Step c key may s (.did (.issued call id spec)) t) :
    t.store = s.store ∧ (c.conduct key).calls (sitting past) call id spec := by
  have upholds := run.upholds
  cases step with
  | issue => exact ⟨rfl, upholds.1⟩

/-- After a call the record stays in the store until the engine takes the finalizer off. -/
theorem Run.stays (keeps : ∀ s op, may s op → c.KeepsFinalizer key s op)
    {newer older : List (Happening σ)} {call : Call} {id : String} {spec : σ}
    (run : Run c key may (newer ++ .did (.issued call id spec) :: older) s)
    (kept : ∀ happening ∈ newer, ¬ c.TakesFinalizer happening) :
    c.Guarded key s.store ∧ ∀ happening ∈ newer, happening.bears key = false := by
  induction newer generalizing s with
  | nil =>
      cases run with
      | step run step =>
          obtain ⟨same, held, hand, _, guards, _⟩ := run.calls step
          rw [same]
          exact ⟨(run.anchored keeps held hand guards).guarded, by simp⟩
  | cons newest newer ih =>
      cases run with
      | step run step =>
          obtain ⟨guarded, unborn⟩ := ih run fun h member => kept h (List.mem_cons_of_mem _ member)
          have ⟨_, found, _⟩ := guarded
          refine ⟨step.guarded keeps run.filed guarded (kept newest List.mem_cons_self), ?_⟩
          intro happening member
          obtain rfl | member := List.mem_cons.mp member
          · exact step.bears_eq_false found
          · exact unborn happening member

/-- As long as others leave the finalizer alone, a call is made only while the store holds, with the
finalizer on it, the very record that the call is for; and from a call on that record stays in the
store, with the finalizer, until the engine takes the finalizer off. -/
theorem finalizer_precedes_calls (run : Run c key (c.KeepsFinalizer key) past s) :
    (∀ call id spec t, Step c key (c.KeepsFinalizer key) s (.did (.issued call id spec)) t →
      ∃ held stored : Record σ,
        inHand (sitting past) = some held ∧ held.key = key ∧
        id = c.resourceId held ∧ spec = held.spec ∧
        (∃ deed, .did deed ∈ life key past ∧ deed.record? = some held) ∧
        s.store.records[key]? = some stored ∧ stored.key = key ∧
        c.definition.finalizer ∈ stored.metadata.finalizers) ∧
    ∀ newer older call id spec, past = newer ++ .did (.issued call id spec) :: older →
      (∀ happening ∈ newer, ¬ c.TakesFinalizer happening) →
      (∃ stored : Record σ, s.store.records[key]? = some stored ∧
        c.definition.finalizer ∈ stored.metadata.finalizers) ∧
      ∀ happening ∈ newer, happening.bears key = false := by
  have keeps : ∀ s op, c.KeepsFinalizer key s op → c.KeepsFinalizer key s op := fun _ _ h => h
  have listed {r : Record σ} (guards : c.Guards r) :
      c.definition.finalizer ∈ r.metadata.finalizers := List.contains_iff_mem.mp guards
  constructor
  · intro call id spec t step
    obtain ⟨_, held, hand, own, guards, sameId, sameSpec⟩ := run.calls step
    have anchored := run.anchored keeps held hand guards
    obtain ⟨stored, found, guardsStored⟩ := anchored.guarded
    exact ⟨held, stored, hand, own, sameId, sameSpec, anchored.seen hand guards, found,
      run.filed _ _ found, listed guardsStored⟩
  · rintro newer older call id spec rfl kept
    obtain ⟨⟨stored, found, guards⟩, unborn⟩ := run.stays keeps kept
    exact ⟨⟨stored, found, listed guards⟩, unborn⟩

/-- A record without finalizers is filed, gets one, and is called for; then its deletion is asked
for, and it stays. -/
theorem finalizer_precedes_calls_of_sample :
    ∃ past s t u,
      Run sample sampleKey (sample.KeepsFinalizer sampleKey) past s ∧
      Step sample sampleKey (sample.KeepsFinalizer sampleKey) s
        (.did (.issued .create "vm-1" sampleRecord.spec)) t ∧
      Run sample sampleKey (sample.KeepsFinalizer sampleKey)
        ([.outside (.requestDeletion sampleKey) .done] ++
          .did (.issued .create "vm-1" sampleRecord.spec) :: past) u ∧
      (∃ stored, s.store.records[sampleKey]? = some stored ∧
        "a.finalizers.com" ∈ stored.metadata.finalizers) ∧
      ∃ stored, u.store.records[sampleKey]? = some stored ∧
        "a.finalizers.com" ∈ stored.metadata.finalizers := by
  have created : Run sample sampleKey (sample.KeepsFinalizer sampleKey) _ _ :=
    .step .start (.outside sampleInstant (.create sampleRecord) fun _ _ same => nomatch same)
  have read := (created.step .begin).step (.ask (.read _ sampleKey))
  have secured := read.step (.ask (.writeMetadata _ _))
  have issued := secured.step .issue
  have requested := issued.step
    (.outside sampleInstant (.requestDeletion sampleKey) fun _ _ same => nomatch same)
  obtain ⟨_, stored, _, _, _, _, _, found, _, listed⟩ :=
    (finalizer_precedes_calls secured).1 .create "vm-1" sampleRecord.spec _ .issue
  have stays := (finalizer_precedes_calls requested).2 [_] _ .create "vm-1" sampleRecord.spec rfl
    (List.forall_mem_singleton.mpr id)
  exact ⟨_, _, _, _, secured, .issue, requested, ⟨stored, found, listed⟩, stays.1⟩

end Scene

end Steward
