import Steward.Proofs.Visit

/-!
# The calls of one reconcile

One reconcile issues at most two calls: it may probe first, and then at most one call changes the
resource.  Each call comes with a warrant: what the record said when it was read, and what a probe in
the same reconcile found.
-/

namespace Steward

open Deed Controller Scene

variable {σ : Type}

namespace Deed

def issued? : Deed σ → Option Call
  | .issued call _ _ => some call
  | _ => none

/-- The calls that were issued, the first one first. -/
def calls (deeds : List (Deed σ)) : List Call := (deeds.filterMap issued?).reverse

theorem mem_calls {deeds : List (Deed σ)} {call : Call} :
    call ∈ calls deeds ↔ ∃ id spec, .issued call id spec ∈ deeds := by
  rw [calls, List.mem_reverse, List.mem_filterMap]
  constructor
  · rintro ⟨deed, done, issued⟩
    cases deed <;> cases issued
    exact ⟨_, _, done⟩
  · rintro ⟨id, spec, done⟩
    exact ⟨_, done, rfl⟩

/-- A probe was answered with this condition. -/
def Found (deeds : List (Deed σ)) (condition : Condition) : Prop :=
  ∃ payload, .ended .verify (some (.ok ⟨condition, payload⟩)) ∈ deeds

end Deed

/-- All that one reconcile may call. -/
def callSequences : List (List Call) :=
  [[], [.create], [.verify], [.verify, .create], [.verify, .update], [.delete], [.verify, .delete]]

/-- What has to be known before a call is issued, where the record was read as `first` and `r` is in
hand. -/
def Controller.Warrants (c : Controller σ) (first r : Record σ) (deeds : List (Deed σ)) :
    Call → Prop
  | .verify => True
  | .create => first.metadata.isDeletionRequested = false ∧
      (r.status.operation = none ∨
        r.status.phase = some .failed ∧ Found deeds .missing)
  | .update => first.metadata.isDeletionRequested = false ∧ Found deeds .updateRequired
  | .delete => first.metadata.isDeletionRequested = true ∧ r = first ∧ c.Guards r ∧
      (r.status.operation ≠ some .delete ∨
        r.status.operation = some .delete ∧ r.status.phase = some .failed ∧
          (Found deeds .ready ∨ Found deeds .updateRequired))

theorem Verdict.ofCondition_eq_apply {found : Condition} {phase : Option Phase}
    {operation : Mutation} (verdict : Verdict.ofCondition found phase = .apply operation) :
    (operation = .create ∧ found = .missing ∧ phase = some .failed) ∨
      operation = .update ∧ found = .updateRequired := by
  unfold Verdict.ofCondition at verdict
  cases found with
  | ready | inProgress | error => cases verdict
  | updateRequired =>
      cases verdict
      exact .inr ⟨rfl, rfl⟩
  | deleting =>
      simp only at verdict
      split at verdict <;> cases verdict
  | missing =>
      simp only at verdict
      split at verdict
      case isTrue => cases verdict
      split at verdict
      case isTrue failed =>
        cases verdict
        exact .inl ⟨rfl, rfl, failed⟩
      case isFalse => cases verdict

theorem DeletionProgress.afterVerify_eq_reissue {found : Condition} {attemptFailed : Bool}
    (reissue : DeletionProgress.afterVerify found attemptFailed = .reissue) :
    attemptFailed = true ∧ (found = .ready ∨ found = .updateRequired) := by
  cases attemptFailed <;> cases found <;> cases reissue
  · exact ⟨rfl, .inl rfl⟩
  · exact ⟨rfl, .inr rfl⟩

/-! ## The order of the calls -/

variable {status : Status} {deleting : Bool} {ended : List Ended} {call : Call}

theorem Due.sequence (due : Due status deleting ended call) :
    (ended.map Sigma.fst).reverse ++ [call] ∈ callSequences := by
  cases due with
  | create | probe | delete | poll => decide
  | reissue => exact (by decide : [Call.verify, .delete] ∈ callSequences)
  | apply issued verdict =>
      obtain ⟨rfl, _⟩ | ⟨rfl, _⟩ := Verdict.ofCondition_eq_apply verdict
      · exact (by decide : [Call.verify, .create] ∈ callSequences)
      · exact (by decide : [Call.verify, .update] ∈ callSequences)

/-- Where a reconcile is with its calls: how those before ended, and the one under way, if any.  Each
was due when it was issued. -/
inductive Orderly : List Ended → List Call → Prop where
  | uncalled : Orderly [] []
  | underWay {status : Status} {deleting : Bool} {ended : List Ended} {call : Call}
      (due : Due status deleting ended call) : Orderly ended [call]
  | ended {status : Status} {deleting : Bool} {ended : List Ended} {call : Call}
      (due : Due status deleting ended call) (ending : call.Ending) :
      Orderly (⟨call, ending⟩ :: ended) []

theorem Orderly.due (orderly : Orderly ended [call]) :
    ∃ status deleting, Due status deleting ended call := by
  cases orderly with
  | underWay due => exact ⟨_, _, due⟩

theorem Orderly.sequence {underWay : List Call} (orderly : Orderly ended underWay) :
    (ended.map Sigma.fst).reverse ++ underWay ∈ callSequences := by
  cases orderly with
  | uncalled => decide
  | underWay due => exact due.sequence
  | ended due ending =>
      rw [List.map_cons, List.reverse_cons, List.append_nil]
      exact due.sequence

/-- The call that is under way. -/
def Engine.underWay : Engine σ → List Call
  | .calling call _ => [call]
  | .idle | .running _ => []

namespace Scene

variable [DecidableEq σ] {c : Controller σ} {key : Key} {may : Custom σ} {start : Store σ}
variable {past : List (Happening σ)} {s : Scene σ}

theorem Visit.orderly (visit : Visit c key may start past s) (filed : start.Filed) :
    Orderly (endings (sitting past)) s.engine.underWay ∧
      calls (sitting past) =
        ((endings (sitting past)).map Sigma.fst).reverse ++ s.engine.underWay := by
  induction visit with
  | begin => exact ⟨.uncalled, rfl⟩
  | outside visit step ih =>
      cases step with
      | outside => exact ih
  | did visit step ih =>
      have keeps := visit.keeps filed (c.reconcile_disciplined key)
      obtain ⟨orderly, order⟩ := ih
      cases step with
      | ask | report => exact ⟨orderly, order⟩
      | issue =>
          -- No other call is under way: this one was due after those that ended.
          obtain ⟨⟨_, _, _, _, due, _⟩, _⟩ := keeps
          have order := order.trans (List.append_nil _)
          exact ⟨.underWay due, List.reverse_cons.trans (congrArg (· ++ [_]) order)⟩
      | finish call ending =>
          obtain ⟨_, _, due⟩ := orderly.due
          exact ⟨.ended due ending,
            order.trans (List.reverse_cons.symm.trans (List.append_nil _).symm)⟩

/-- Where the reconcile has ended, every call has. -/
theorem Visit.mem_calls_iff {store : Store σ} {result : Except Fault Outcome}
    (visit : Visit c key may start past ⟨store, .running (.done result)⟩) (filed : start.Filed)
    {call : Call} : call ∈ calls (sitting past) ↔ ∃ ended ∈ endings (sitting past), ended.1 = call := by
  rw [(visit.orderly filed).2, Engine.underWay, List.append_nil, List.mem_reverse, List.mem_map]

/-- Whatever is called was due, for the record in hand. -/
theorem Visit.due (visit : Visit c key may start past s) (filed : start.Filed)
    {newer older : List (Deed σ)} {call : Call} {id : String} {spec : σ}
    (history : sitting past = newer ++ .issued call id spec :: older) :
    ∃ first r, older ⊆ sitting past ∧ c.Attends key older first r ∧ c.Clear first r older ∧
      Due r.status first.metadata.isDeletionRequested (endings older) call ∧
      ∀ operation : Mutation, operation.call = call →
        (c.permissions first).allows operation = true := by
  have kept : older ⊆ sitting past := by
    rw [history]
    exact fun _ done => List.mem_append_right _ (List.mem_cons_of_mem _ done)
  obtain ⟨first, r, attends, clear⟩ := visit.issued filed (c.reconcile_accounts key) history
  obtain ⟨_, _, _, ⟨⟨other, read, rfl, rfl⟩, hand⟩, due, permitted⟩ :=
    visit.issued filed (c.reconcile_disciplined key) history
  obtain rfl := visit.read_unique filed (kept attends.read) (kept read)
  obtain rfl := Option.some.inj (attends.hand.symm.trans hand)
  exact ⟨first, r, kept, attends, clear, due, permitted⟩

theorem Visit.called (visit : Visit c key may start past s) (filed : start.Filed) {call : Call}
    (called : call ∈ calls (sitting past)) :
    ∃ older first r, older ⊆ sitting past ∧ c.Attends key older first r ∧
      c.Clear first r older ∧
      Due r.status first.metadata.isDeletionRequested (endings older) call ∧
      ∀ operation : Mutation, operation.call = call →
        (c.permissions first).allows operation = true := by
  obtain ⟨id, spec, issued⟩ := mem_calls.mp called
  obtain ⟨newer, older, history⟩ := List.append_of_mem issued
  exact ⟨older, visit.due filed history⟩

omit [DecidableEq σ] in
theorem warrants_of_due {first r : Record σ} {deeds : List (Deed σ)}
    (attends : c.Attends key deeds first r)
    (due : Due r.status first.metadata.isDeletionRequested (endings deeds) call) :
    c.Warrants first r deeds call := by
  have found (condition : Condition) (payload : Option Payload)
      (only : [⟨.verify, some (.ok ⟨condition, payload⟩)⟩] = endings deeds) :
      Found deeds condition :=
    ⟨payload, mem_endings.mp (only ▸ List.mem_singleton_self _)⟩
  generalize requested : first.metadata.isDeletionRequested = deleting at due
  generalize before : endings deeds = ended at due
  cases due with
  | probe | poll => exact trivial
  | create unissued => exact ⟨requested, .inl unissued⟩
  | apply issued verdict =>
      obtain ⟨rfl, rfl, failed⟩ | ⟨rfl, rfl⟩ := Verdict.ofCondition_eq_apply verdict
      · exact ⟨requested, .inr ⟨failed, found _ _ before.symm⟩⟩
      · exact ⟨requested, found _ _ before.symm⟩
  | delete unissued =>
      exact ⟨requested, attends.origin.eq_first requested, attends.guards, .inl unissued⟩
  | reissue issued reissue =>
      obtain ⟨failed, seen⟩ := DeletionProgress.afterVerify_eq_reissue reissue
      refine ⟨requested, attends.origin.eq_first requested, attends.guards, .inr ⟨issued, ?_, ?_⟩⟩
      · simpa using failed
      · obtain rfl | rfl := seen
        · exact .inl (found _ _ before.symm)
        · exact .inr (found _ _ before.symm)

/-- Whatever the record, the statuses of references, the annotation and the answers of the manager
are, and whatever others do meanwhile, one reconcile issues one of seven sequences of calls, each
call with its warrant.  If nobody else writes the record, the warrant is about the stored record: it
is the one that was read, and the one in hand differs from it at most by the finalizer. -/
theorem calls_warranted (visit : Visit c key may start past s) (filed : start.Filed) :
    calls (sitting past) ∈ callSequences ∧
    ∀ newer call id spec older, sitting past = newer ++ .issued call id spec :: older →
      ∃ first r, .asked (.read key) (.ok (some first)) ∈ older ∧ inHand older = some r ∧
        c.Warrants first r older call ∧
        (Alone key may → start.records[key]? = some first ∧ r = c.secured first) := by
  constructor
  · obtain ⟨orderly, order⟩ := visit.orderly filed
    rw [order]
    exact orderly.sequence
  intro newer call id spec older history
  obtain ⟨first, r, kept, attends, _, due, _⟩ := visit.due filed history
  refine ⟨first, r, attends.read, attends.hand, warrants_of_due attends due, ?_⟩
  intro alone
  have undisputed := (visit.alone filed alone).1
  have origin := attends.origin.eq_secured attends.guards fun deed done => undisputed deed (kept done)
  constructor
  · exact (visit.read_eq filed alone (kept attends.read)).symm
  · exact origin

/-- The sample record after its create failed. -/
def failedSample : Record Plain :=
  { guardedSample with status := { phase := some .failed, operation := some .create } }

/-- The resource of a failed record is missing, so it is created again. -/
theorem calls_warranted_of_recreate :
    ∃ past s id spec older,
      Visit sample sampleKey (fun _ _ => True) (.only failedSample) past s ∧
      (Store.only failedSample).Filed ∧ sitting past = .issued .create id spec :: older ∧
      calls (sitting past) ∈ callSequences ∧ calls (sitting past) = [.verify, .create] ∧
      ∃ first r, .asked (.read sampleKey) (.ok (some first)) ∈ older ∧ inHand older = some r ∧
        sample.Warrants first r older .create := by
  have read : Visit sample sampleKey (fun _ _ => True) (.only failedSample) _ _ :=
    .did .begin (.ask (.read _ sampleKey))
  have probed := (read.did .issue).did (.finish .verify (some (.ok ⟨.missing, none⟩)))
  have issued := probed.did .issue
  obtain ⟨sequence, warranted⟩ := calls_warranted issued (Store.only_filed _)
  obtain ⟨first, r, read, hand, warrants, _⟩ := warranted [] _ _ _ _ rfl
  exact ⟨_, _, _, _, _, issued, Store.only_filed _, rfl, sequence, rfl, first, r, read, hand,
    warrants⟩

end Scene

end Steward
