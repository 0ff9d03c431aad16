import Steward.Proofs.Discipline
import Steward.Proofs.Refusal

/-!
# The ways in which a reconcile ends

A reconcile that gives an account says which record it read, which record it worked with, what it
decided, and where the decision went.  It looks up the statuses of references only for a record that
is to stay, and it calls the manager only after every one of them was ready, or, for a record that is
to be deleted, when deleting is permitted.  A fault cuts it short before it wrote a status or took
the finalizer away.
-/

namespace Steward

open Deed

variable {σ α : Type}

theorem Procedure.Upholds.and {conduct conduct' : Conduct σ} {post post' : List (Deed σ) → α → Prop}
    {p : Procedure σ α} {deeds : List (Deed σ)} (left : p.Upholds conduct post deeds)
    (right : p.Upholds conduct' post' deeds) :
    p.Upholds conduct' (fun deeds a => post deeds a ∧ post' deeds a) deeds := by
  induction p generalizing deeds with
  | done a => exact ⟨left, right⟩
  | ask query resume ih =>
      exact ⟨right.1, fun answer fits => ih answer (left.2 answer fits) (right.2 answer fits)⟩
  | call k id spec resume ih =>
      exact ⟨right.1, fun ending => ih ending (left.2 ending) (right.2 ending)⟩
  | report event next ih => exact ih left right

namespace Controller

variable {c : Controller σ} {key : Key} {deeds later : List (Deed σ)} {first r : Record σ}

/-- What the annotation of a record permits. -/
def permissions (c : Controller σ) (r : Record σ) : Permissions :=
  .ofAnnotations r.metadata.annotations c.permissionKey

/-- A record that a reconcile has in hand is the one that was read, or, if that one lacked the
finalizer, what the store answered when it was added. -/
inductive Origin (c : Controller σ) (first : Record σ) (deeds : List (Deed σ)) :
    Record σ → Prop where
  | found (guards : first.metadata.isDeletionRequested = true → c.Guards first) :
      Origin c first deeds first
  | secured {r : Record σ} (stays : first.metadata.isDeletionRequested = false)
      (unguarded : ¬ c.Guards first)
      (written : .asked (.writeMetadata
          { first with metadata := first.metadata.addFinalizer c.definition.finalizer })
          (.ok r) ∈ deeds) :
      Origin c first deeds r

/-- The reconcile read `first` and works with `r`. -/
structure Attends (c : Controller σ) (key : Key) (deeds : List (Deed σ)) (first r : Record σ) :
    Prop where
  read : .asked (.read key) (.ok (some first)) ∈ deeds
  hand : inHand deeds = some r
  origin : c.Origin first deeds r
  guards : c.Guards r

/-- Every reference of the record was found ready. -/
def Open (c : Controller σ) (r : Record σ) (deeds : List (Deed σ)) : Prop :=
  ∃ refs, c.definition.references r = .ok refs ∧
    ∀ entry ∈ refs.all, ∃ status, .asked (.readStatus entry.2.key) (.ok (some status)) ∈ deeds ∧
      entry.2.isReady status = true

/-- Why the manager may be called. -/
inductive Clear (c : Controller σ) (first r : Record σ) (deeds : List (Deed σ)) : Prop where
  | removal (requested : first.metadata.isDeletionRequested = true)
      (permitted : c.PermitsDelete first)
  | upkeep (stays : first.metadata.isDeletionRequested = false) (ready : c.Open r deeds)

/-- Statuses of references are looked up only for a record that is to stay, and the manager is called
only when the way is clear. -/
def attention (c : Controller σ) (key : Key) : Conduct σ where
  asks
    | deeds, .readStatus _ => ∃ first : Record σ, .asked (.read key) (.ok (some first)) ∈ deeds ∧
        first.metadata.isDeletionRequested = false
    | _, _ => True
  calls deeds _ _ _ := ∃ first r, c.Attends key deeds first r ∧ c.Clear first r deeds

/-- A fault cut the reconcile short: before the first call ended, because a call overran its budget,
or because a write was refused. -/
structure Cut (c : Controller σ) (key : Key) (first : Record σ) (deeds : List (Deed σ)) :
    Prop where
  read : .asked (.read key) (.ok (some first)) ∈ deeds
  hand : ∃ h, inHand deeds = some h ∧ c.Origin first deeds h
  cause : endings deeds = [] ∨ (∃ call, .ended call none ∈ deeds) ∨
    ∃ query incoming fault, query.written? = some incoming ∧
      .asked query (query.refusal fault) ∈ deeds

/-- The transition `t` of the record `r` is in the store. -/
structure Commits (c : Controller σ) (r : Record σ) (t : Transition) (deeds : List (Deed σ))
    (outcome : Outcome) : Prop where
  outcome : outcome = ⟨some (t.apply r.status), some (c.requeueAfter t.phase)⟩
  written : (t.apply r.status = r.status ∧ inHand deeds = some r) ∨
    ∃ w, inHand deeds = some w ∧
      .asked (.writeStatus { r with status := t.apply r.status }) (.ok w) ∈ deeds

/-- What a reconcile comes to with a record that is to stay. -/
inductive Resolves (c : Controller σ) (permissions : Permissions) (r : Record σ)
    (deeds : List (Deed σ)) : Transition → Prop where
  | invalid {other : Key} {reason : String}
      (invalid : c.definition.references r = .error (.invalidInstance other reason))
      (uncalled : endings deeds = []) :
      Resolves c permissions r deeds
        ((Transition.failed reason).reporting .warning "InvalidInstance")
  | waits {refs : References} {entry : Role × Reference} {status : Option Status}
      {readiness : Readiness} (references : c.definition.references r = .ok refs)
      (listed : entry ∈ refs.all) (found : .asked (.readStatus entry.2.key) (.ok status) ∈ deeds)
      (unready : Readiness.ofStatus entry.1 entry.2 status = some readiness)
      (uncalled : endings deeds = []) :
      Resolves c permissions r deeds (.pending readiness.message)
  | drives {t : Transition} (ready : c.Open r deeds)
      (concludes : c.Concludes permissions r false (endings deeds) t)
      (driven : t.phase ≠ .pending) : Resolves c permissions r deeds t

/-- How the calls ended before the finalizer of a record goes: none was permitted, the resource was
found gone, or it was deleted. -/
inductive Vacant (c : Controller σ) (r : Record σ) : List Ended → Prop where
  | denied (denied : ¬ c.PermitsDelete r) : Vacant c r []
  | gone (due : Due r.status true [] .verify) (payload : Option Payload) :
      Vacant c r [⟨.verify, some (.ok ⟨.missing, payload⟩)⟩]
  | deleted {before : List Ended} (due : Due r.status true before .delete) :
      Vacant c r (⟨.delete, some (.ok .succeeded)⟩ :: before)

/-- Every way in which a reconcile can end. -/
inductive Account (c : Controller σ) (key : Key) (deeds : List (Deed σ)) :
    Except Fault Outcome → Prop where
  | unread {fault : Fault} (read : deeds = [.asked (.read key) (.error fault)]) :
      Account c key deeds (.error fault)
  | absent (read : deeds = [.asked (.read key) (.ok none)]) :
      Account c key deeds (.ok .finished)
  | cut {first : Record σ} {fault : Fault} (cut : c.Cut key first deeds) :
      Account c key deeds (.error fault)
  | free {first : Record σ} (requested : first.metadata.isDeletionRequested = true)
      (unguarded : ¬ c.Guards first) (read : deeds = [.asked (.read key) (.ok (some first))]) :
      Account c key deeds (.ok .finished)
  | released {first w : Record σ} (read : .asked (.read key) (.ok (some first)) ∈ deeds)
      (requested : first.metadata.isDeletionRequested = true) (guards : c.Guards first)
      (vacant : c.Vacant first (endings deeds))
      (written : ∃ event older, deeds = .reported event :: .asked (.writeMetadata
          { first with metadata := first.metadata.removeFinalizer c.definition.finalizer })
          (.ok w) :: older) : Account c key deeds (.ok .finished)
  | deletes {first : Record σ} {t : Transition} {outcome : Outcome}
      (read : .asked (.read key) (.ok (some first)) ∈ deeds)
      (requested : first.metadata.isDeletionRequested = true) (guards : c.Guards first)
      (concludes : c.Concludes (c.permissions first) first true (endings deeds) t)
      (commits : c.Commits first t deeds outcome) : Account c key deeds (.ok outcome)
  | stays {first r : Record σ} {t : Transition} {outcome : Outcome}
      (read : .asked (.read key) (.ok (some first)) ∈ deeds)
      (stays : first.metadata.isDeletionRequested = false) (origin : c.Origin first deeds r)
      (guards : c.Guards r) (resolves : c.Resolves (c.permissions first) r deeds t)
      (commits : c.Commits r t deeds outcome) : Account c key deeds (.ok outcome)

theorem Origin.mono (origin : c.Origin first deeds r) (kept : deeds ⊆ later) :
    c.Origin first later r := by
  cases origin with
  | found guards => exact .found guards
  | secured stays unguarded written => exact .secured stays unguarded (kept written)

theorem Origin.eq_first (origin : c.Origin first deeds r)
    (requested : first.metadata.isDeletionRequested = true) : r = first := by
  cases origin with
  | found => rfl
  | secured stays => cases stays.symm.trans requested

theorem Attends.quiet (attends : c.Attends key deeds first r) {deed : Deed σ}
    (unseen : deed.record? = none) : c.Attends key (deed :: deeds) first r where
  read := List.mem_cons_of_mem _ attends.read
  hand := by rw [inHand_cons, unseen, Option.none_or, attends.hand]
  origin := attends.origin.mono (List.subset_cons_self _ _)
  guards := attends.guards

theorem Attends.called (attends : c.Attends key deeds first r) {call : Call} {ending : call.Ending}
    {id : String} {spec : σ} :
    c.Attends key (.ended call ending :: .issued call id spec :: deeds) first r :=
  (attends.quiet rfl).quiet rfl

/-- A call that overruns its budget cuts the reconcile short. -/
theorem Attends.overran (attends : c.Attends key deeds first r) {call : Call} {id : String}
    {spec : σ} : c.Cut key first (.ended call none :: .issued call id spec :: deeds) where
  read := attends.called.read
  hand := ⟨r, attends.called.hand, attends.called.origin⟩
  cause := .inr (.inl ⟨call, List.mem_cons_self⟩)

/-- So does a write that is refused. -/
theorem Attends.refused (attends : c.Attends key deeds first r) (query : Query σ)
    {incoming : Record σ} (written : query.written? = some incoming) {fault : Fault}
    (unseen : (Deed.asked query (query.refusal fault)).record? = none) :
    c.Cut key first (.asked query (query.refusal fault) :: deeds) where
  read := (attends.quiet unseen).read
  hand := ⟨r, (attends.quiet unseen).hand, (attends.quiet unseen).origin⟩
  cause := .inr (.inr ⟨query, incoming, fault, written, List.mem_cons_self⟩)

/-- A transition that is committed leads to whatever its being in the store does; the deeds before
stay, and no call is added. -/
theorem commit_accounts [DecidableEq σ] {t : Transition} (attends : c.Attends key deeds first r)
    (closes : ∀ later outcome, deeds ⊆ later → endings later = endings deeds →
      c.Commits r t later outcome → c.Account key later (.ok outcome)) :
    (c.commit r t).Upholds (c.attention key) (c.Account key) deeds := by
  rw [commit]
  by_cases same : t.apply r.status = r.status
  · -- Nothing is written if the status stays as it was.
    rw [if_neg (not_not_intro same)]
    exact closes _ _ (List.Subset.refl _) rfl ⟨rfl, .inl ⟨same, attends.hand⟩⟩
  rw [if_pos same, Attempt.upholds_bind, Attempt.upholds_writeStatus]
  refine ⟨trivial, fun answer _ => ?_⟩
  obtain fault | w := answer
  · exact .cut (attends.refused (.writeStatus _) rfl rfl)
  rw [Attempt.Onward]
  split
  · rw [Attempt.upholds_bind, Attempt.upholds_report]
    exact closes _ _
      (fun _ done => List.mem_cons_of_mem _ (List.mem_cons_of_mem _ done)) rfl
      ⟨rfl, .inr ⟨w, rfl, List.mem_cons_of_mem _ List.mem_cons_self⟩⟩
  · exact closes _ _ (List.subset_cons_self _ _) rfl ⟨rfl, .inr ⟨w, rfl, List.mem_cons_self⟩⟩

/-! ## A record that stays -/

theorem Open.mono (ready : c.Open r deeds) (kept : deeds ⊆ later) : c.Open r later := by
  obtain ⟨refs, references, answered⟩ := ready
  refine ⟨refs, references, fun entry listed => ?_⟩
  obtain ⟨status, found, ready⟩ := answered entry listed
  exact ⟨status, kept found, ready⟩

theorem Attends.standing (attends : c.Attends key deeds first r)
    (stays : first.metadata.isDeletionRequested = false) :
    c.Standing key deeds false (c.permissions first) r :=
  ⟨⟨first, attends.read, stays, rfl⟩, attends.hand⟩

/-- Once a record that stays has its finalizer, and before any call. -/
def Prepared (c : Controller σ) (key : Key) (first : Record σ) (deeds : List (Deed σ)) :
    Except Fault (Record σ) → Prop
  | .ok r => c.Attends key deeds first r ∧ endings deeds = []
  | .error _ => c.Cut key first deeds

theorem ensureFinalizer_accounts (stays : first.metadata.isDeletionRequested = false) :
    (c.ensureFinalizer first).Upholds (c.attention key) (c.Prepared key first)
      [.asked (.read key) (.ok (some first))] := by
  rw [ensureFinalizer]
  split
  case isTrue guards =>
    exact ⟨⟨List.mem_singleton_self _, rfl, .found fun _ => guards, guards⟩, rfl⟩
  case isFalse unguarded =>
    rw [Attempt.upholds_writeMetadata]
    refine ⟨trivial, fun answer fits => ?_⟩
    obtain fault | w := answer
    · exact ⟨List.mem_cons_of_mem _ List.mem_cons_self,
        ⟨first, rfl, .found fun requested => by cases stays.symm.trans requested⟩, .inl rfl⟩
    · refine ⟨⟨List.mem_cons_of_mem _ List.mem_cons_self, rfl,
        .secured stays unguarded List.mem_cons_self, ?_⟩, rfl⟩
      rw [Guards, Metadata.hasFinalizer, (fits w rfl).2.2.2]
      exact first.metadata.hasFinalizer_addFinalizer c.definition.finalizer

/-- What was found out about references: all of them are ready, or one of them is not. -/
def Checked (refs : List (Role × Reference)) (deeds : List (Deed σ)) (readiness : Readiness) :
    Prop :=
  (readiness.isReady = true ∧
    ∀ entry ∈ refs, ∃ status, .asked (.readStatus entry.2.key) (.ok (some status)) ∈ deeds ∧
      entry.2.isReady status = true) ∨
  readiness.isReady = false ∧
    ∃ entry ∈ refs, ∃ status, .asked (.readStatus entry.2.key) (.ok status) ∈ deeds ∧
      Readiness.ofStatus entry.1 entry.2 status = some readiness

theorem isReady_of_ofStatus {role : Role} {ref : Reference} {status : Option Status}
    {readiness : Readiness} (unready : Readiness.ofStatus role ref status = some readiness) :
    readiness.isReady = false := by
  cases status with
  | none =>
      cases unready
      rfl
  | some status =>
      rw [Readiness.ofStatus] at unready
      split at unready <;> cases unready
      rfl

theorem ofStatus_eq_none {role : Role} {ref : Reference} {status : Option Status}
    (ready : Readiness.ofStatus role ref status = none) :
    ∃ found, status = some found ∧ ref.isReady found = true := by
  cases status with
  | none => cases ready
  | some status =>
      rw [Readiness.ofStatus] at ready
      split at ready
      case isTrue met => exact ⟨status, rfl, met⟩
      case isFalse => cases ready

/-- References are looked up one after the other, until one is not ready. -/
theorem check_accounts (stays : first.metadata.isDeletionRequested = false)
    (refs : List (Role × Reference)) (attends : c.Attends key deeds first r)
    (uncalled : endings deeds = []) :
    Procedure.Upholds (c.attention key)
      (fun later result => c.Attends key later first r ∧ endings later = [] ∧ deeds ⊆ later ∧
        ∀ readiness, result = .ok readiness → Checked refs later readiness)
      (Readiness.check Attempt.readStatus refs) deeds := by
  -- By induction on the references that are left; those before them were ready.
  induction refs generalizing deeds with
  | nil =>
      refine ⟨attends, uncalled, List.Subset.refl _, ?_⟩
      rintro _ ⟨⟩
      exact .inl ⟨rfl, List.forall_mem_nil _⟩
  | cons entry rest ih =>
      obtain ⟨role, ref⟩ := entry
      refine ⟨⟨first, attends.read, stays⟩, fun answer _ => ?_⟩
      have asked : .asked (.readStatus ref.key) answer ∈
          Deed.asked (.readStatus ref.key) answer :: deeds := List.mem_cons_self
      have attends : c.Attends key (.asked (.readStatus ref.key) answer :: deeds) first r :=
        attends.quiet rfl
      obtain fault | status := answer
      · refine ⟨attends, uncalled, List.subset_cons_self _ _, ?_⟩
        rintro _ ⟨⟩
      cases found : Readiness.ofStatus role ref status with
      | some readiness =>
          simp only [Procedure.bind, found]
          refine ⟨attends, uncalled, List.subset_cons_self _ _, ?_⟩
          rintro _ ⟨⟩
          exact .inr ⟨isReady_of_ofStatus found, (role, ref), List.mem_cons_self, status, asked,
            found⟩
      | none =>
          obtain ⟨status, rfl, ready⟩ := ofStatus_eq_none found
          simp only [Procedure.bind, found]
          refine (ih attends uncalled).imp fun later result checked => ?_
          obtain ⟨attends, uncalled, kept, checked⟩ := checked
          refine ⟨attends, uncalled, fun _ done => kept (List.mem_cons_of_mem _ done), ?_⟩
          rintro readiness rfl
          obtain ⟨all, answered⟩ | ⟨waits, entry, listed, unready⟩ := checked readiness rfl
          · refine .inl ⟨all, List.forall_mem_cons.mpr ⟨?_, answered⟩⟩
            exact ⟨status, kept asked, ready⟩
          · exact .inr ⟨waits, entry, List.mem_cons_of_mem _ listed, unready⟩

theorem phase_afterApply (operation : Mutation) (answer : Except String (Response ApplyResult)) :
    (Transition.afterApply operation answer).phase ≠ .pending := by
  obtain _ | ⟨_ | _ | _, _⟩ := answer <;> exact nofun

/-- What is settled by a condition alone marks no operation, and success is settled by one condition
only. -/
theorem ofCondition_eq_settle {found : Condition} {phase : Option Phase} {t : Transition}
    (settles : Verdict.ofCondition found phase = .settle t) :
    t.operation = none ∧
      (t.phase = .inProgress ∨ t.phase = .failed ∨ found = .ready ∧ t.phase = .succeeded) := by
  unfold Verdict.ofCondition at settles
  cases found with
  | ready =>
      cases settles
      exact ⟨rfl, .inr (.inr ⟨rfl, rfl⟩)⟩
  | updateRequired => cases settles
  | inProgress =>
      cases settles
      exact ⟨rfl, .inl rfl⟩
  | error =>
      cases settles
      exact ⟨rfl, .inr (.inl rfl)⟩
  | deleting =>
      simp only at settles
      split at settles <;> cases settles
      · exact ⟨rfl, .inl rfl⟩
      · exact ⟨rfl, .inr (.inl rfl)⟩
  | missing =>
      simp only at settles
      split at settles
      case isTrue =>
        cases settles
        exact ⟨rfl, .inl rfl⟩
      case isFalse =>
        split at settles <;> cases settles
        exact ⟨rfl, .inr (.inl rfl)⟩

/-- After it was decided what to do with a record whose references are ready. -/
def Driven (c : Controller σ) (key : Key) (first r : Record σ) (deeds : List (Deed σ)) :
    Except Fault Transition → Prop
  | .ok t => c.Attends key deeds first r ∧ c.Open r deeds ∧ t.phase ≠ .pending
  | .error _ => c.Cut key first deeds

theorem failed_ne_pending : Phase.failed ≠ .pending := by decide

theorem apply_accounts {operation : Mutation} {permissions : Permissions}
    (attends : c.Attends key deeds first r)
    (stays : first.metadata.isDeletionRequested = false) (ready : c.Open r deeds) :
    (c.apply operation r permissions).Upholds (c.attention key) (c.Driven key first r) deeds := by
  have called (k : Call) {id : String} {spec : σ} : (c.attention key).calls deeds k id spec :=
    ⟨first, r, attends, .upkeep stays ready⟩
  have answered (k : Call) (ending : k.Ending) (t : Transition) (driven : t.phase ≠ .pending) :
      c.Driven key first r (.ended k ending :: .issued k (c.resourceId r) r.spec :: deeds)
        (.ok t) :=
    ⟨attends.called, ready.mono fun _ done => List.mem_cons_of_mem _ (List.mem_cons_of_mem _ done),
      driven⟩
  rw [apply]
  split
  · exact ⟨attends, ready, failed_ne_pending⟩
  split
  · rw [Attempt.upholds_bind, call, Attempt.upholds_call]
    exact ⟨called .update, attends.overran,
      fun answer => answered .update _ _ (phase_afterApply _ answer)⟩
  · rw [Attempt.upholds_bind, call, Attempt.upholds_call]
    exact ⟨called .create, attends.overran,
      fun answer => answered .create _ _ (phase_afterApply _ answer)⟩

theorem drive_accounts {permissions : Permissions} (attends : c.Attends key deeds first r)
    (stays : first.metadata.isDeletionRequested = false) (ready : c.Open r deeds) :
    (c.drive r permissions).Upholds (c.attention key) (c.Driven key first r) deeds := by
  rw [drive]
  split
  · exact apply_accounts attends stays ready
  rw [Attempt.upholds_bind, call, Attempt.upholds_call]
  refine ⟨⟨first, r, attends, .upkeep stays ready⟩, attends.overran, fun answer => ?_⟩
  have ready : c.Open r (.ended .verify (some answer) ::
      .issued .verify (c.resourceId r) r.spec :: deeds) :=
    ready.mono fun _ done => List.mem_cons_of_mem _ (List.mem_cons_of_mem _ done)
  obtain message | ⟨found, payload⟩ := answer
  · exact ⟨attends.called, ready, failed_ne_pending⟩
  rw [Attempt.Onward]
  cases verdict : Verdict.ofCondition found r.status.phase with
  | settle t =>
      simp only [verdict]
      have driven : t.phase ≠ .pending := by
        obtain ⟨_, progress | failed | ⟨_, succeeded⟩⟩ := ofCondition_eq_settle verdict
        · simp [progress]
        · simp [failed]
        · simp [succeeded]
      exact ⟨attends.called, ready, driven⟩
  | apply operation =>
      simp only [verdict]
      exact apply_accounts attends.called stays ready

theorem reconcilePresent_accounts [DecidableEq σ]
    (stays : first.metadata.isDeletionRequested = false) :
    (c.reconcilePresent first (c.permissions first)).Upholds (c.attention key) (c.Account key)
      [.asked (.read key) (.ok (some first))] := by
  rw [reconcilePresent, Attempt.upholds_bind]
  refine (ensureFinalizer_accounts stays).imp fun deeds result prepared => ?_
  obtain fault | r := result
  · exact .cut prepared
  obtain ⟨attends, uncalled⟩ := prepared
  have commits (deeds : List (Deed σ)) (t : Transition) (attends : c.Attends key deeds first r)
      (resolves : ∀ later, deeds ⊆ later → endings later = endings deeds →
        c.Resolves (c.permissions first) r later t) :
      (c.commit r t).Upholds (c.attention key) (c.Account key) deeds :=
    commit_accounts attends fun later outcome kept same commits =>
      .stays (kept attends.read) stays (attends.origin.mono kept) attends.guards
        (resolves later kept same) commits
  rw [Attempt.Onward]
  split
  case h_1 invalid =>
    exact commits _ _ attends fun _ _ same => .invalid invalid (same.trans uncalled)
  case h_2 =>
    exact .cut ⟨attends.read, ⟨r, attends.hand, attends.origin⟩, .inl uncalled⟩
  case h_3 refs references =>
  rw [Attempt.upholds_bind]
  refine (check_accounts stays refs.all attends uncalled).imp fun deeds result checked => ?_
  obtain ⟨attends, uncalled, _, checked⟩ := checked
  obtain fault | readiness := result
  · exact .cut ⟨attends.read, ⟨r, attends.hand, attends.origin⟩, .inl uncalled⟩
  rw [Attempt.Onward]
  obtain ⟨all, answered⟩ | ⟨waits, entry, listed, status, found, unready⟩ := checked readiness rfl
  · -- What is concluded is known from the discipline; that it came of ready references is new.
    rw [if_pos all, Attempt.upholds_bind]
    refine ((drive_disciplined (attends.standing stays) uncalled).and
      (drive_accounts attends stays ⟨refs, references, answered⟩)).imp fun deeds result driven => ?_
    obtain fault | t := result
    · exact .cut driven.2
    · obtain ⟨⟨_, concludes⟩, attends, ready, driven⟩ := driven
      exact commits _ _ attends fun later kept same =>
        .drives (ready.mono kept) (same ▸ concludes) driven
  · rw [if_neg (by rw [waits]; exact Bool.false_ne_true)]
    exact commits _ _ attends fun later kept same =>
      .waits references listed (kept found) unready (same.trans uncalled)

/-! ## A record that is to be deleted -/

theorem Deleting.attends (deleting : c.Deleting key r deeds) : c.Attends key deeds r r where
  read := deleting.read
  hand := deleting.hand
  origin := .found fun _ => deleting.guards
  guards := deleting.guards

theorem release_accounts (deleting : c.Deleting key r deeds)
    (vacant : c.Vacant r (endings deeds)) :
    (c.release r).Upholds (c.attention key) (c.Account key) deeds := by
  have guards : r.metadata.hasFinalizer c.definition.finalizer = true := deleting.guards
  rw [release]
  simp only [guards, if_true]
  rw [Attempt.upholds_bind, Attempt.upholds_writeMetadata]
  refine ⟨trivial, fun answer _ => ?_⟩
  obtain fault | w := answer
  · exact .cut (deleting.attends.refused (.writeMetadata _) rfl rfl)
  rw [Attempt.Onward, Attempt.upholds_bind, Attempt.upholds_report]
  exact .released (List.mem_cons_of_mem _ (List.mem_cons_of_mem _ deleting.read))
    deleting.requested deleting.guards vacant ⟨_, deeds, rfl⟩

theorem advanceDeletion_accounts [DecidableEq σ] {progress : DeletionProgress}
    (deleting : c.Deleting key r deeds)
    (vacant : progress = .confirmed → c.Vacant r (endings deeds))
    (concludes : ∀ t, progress.transition? = some t →
      c.Concludes (c.permissions r) r true (endings deeds) t) :
    (c.advanceDeletion r progress).Upholds (c.attention key) (c.Account key) deeds := by
  have commits (t : Transition) (comes : progress.transition? = some t) :
      (c.commit r t).Upholds (c.attention key) (c.Account key) deeds :=
    commit_accounts deleting.attends fun later outcome kept same commits =>
      .deletes (kept deleting.read) deleting.requested deleting.guards
        (same ▸ concludes t comes) commits
  unfold advanceDeletion
  cases progress with
  | confirmed => exact release_accounts deleting (vacant rfl)
  | inProgress | reissue | failed => exact commits _ rfl

theorem issueDelete_accounts [DecidableEq σ] (deleting : c.Deleting key r deeds)
    (permitted : c.PermitsDelete r) (due : Due r.status true (endings deeds) .delete) :
    (c.issueDelete r).Upholds (c.attention key) (c.Account key) deeds := by
  rw [issueDelete, Attempt.upholds_bind, call, Attempt.upholds_call]
  refine ⟨⟨r, r, deleting.attends, .removal deleting.requested permitted⟩,
    .cut deleting.attends.overran, fun answer => ?_⟩
  have advances : (c.advanceDeletion r (.ofDelete answer)).Upholds (c.attention key)
      (c.Account key) (.ended .delete (some answer) ::
        .issued .delete (c.resourceId r) r.spec :: deeds) := by
    refine advanceDeletion_accounts (deleting.called .delete _) (fun confirmed => ?_)
      fun t progress => .deleted due answer progress
    obtain rfl := ofDelete_eq_confirmed confirmed
    exact .deleted due
  cases answer <;> exact advances

theorem verifyDelete_accounts [DecidableEq σ] (deleting : c.Deleting key r deeds)
    (permitted : c.PermitsDelete r) (issued : r.status.operation = some .delete)
    (uncalled : endings deeds = []) :
    (c.verifyDelete r).Upholds (c.attention key) (c.Account key) deeds := by
  rw [verifyDelete, Attempt.upholds_bind, call, Attempt.upholds_call]
  refine ⟨⟨r, r, deleting.attends, .removal deleting.requested permitted⟩,
    .cut deleting.attends.overran, fun answer => ?_⟩
  have probed : endings (.ended .verify (some answer) ::
      .issued .verify (c.resourceId r) r.spec :: deeds) = [⟨.verify, some answer⟩] :=
    congrArg (List.cons _) uncalled
  have advances : (c.advanceDeletion r (.ofProbe (r.status.phase == some .failed) answer)).Upholds
      (c.attention key) (c.Account key) (.ended .verify (some answer) ::
        .issued .verify (c.resourceId r) r.spec :: deeds) := by
    refine advanceDeletion_accounts (deleting.called .verify _) (fun confirmed => ?_)
      fun t progress => probed ▸ .polled (.poll issued) answer progress
    rw [probed]
    obtain message | ⟨found, payload⟩ := answer
    · cases confirmed
    · obtain rfl := afterVerify_eq_confirmed confirmed
      exact .gone (.poll issued) payload
  obtain message | ⟨found, payload⟩ := answer
  · exact advances
  simp only [Attempt.Onward]
  split
  case h_1 reissue =>
    exact issueDelete_accounts (deleting.called .verify _) permitted
      (probed ▸ .reissue issued reissue)
  case h_2 => exact advances

theorem reconcileDeletion_accounts [DecidableEq σ] (own : r.key = key)
    (requested : r.metadata.isDeletionRequested = true) :
    (c.reconcileDeletion r (c.permissions r)).Upholds (c.attention key) (c.Account key)
      [.asked (.read key) (.ok (some r))] := by
  have deleting (guards : c.Guards r) :
      c.Deleting key r [.asked (.read key) (.ok (some r))] :=
    ⟨rfl, own, guards, requested, List.mem_cons_self⟩
  have planned := plannedFor_next c r
  rw [reconcileDeletion, permissions]
  split <;> rename_i plan <;> rw [plan] at planned
  · exact .free requested planned rfl
  · rw [Attempt.upholds_bind, Attempt.upholds_report]
    exact release_accounts ((deleting planned.1).reported _) (.denied planned.2)
  · exact issueDelete_accounts (deleting planned.1) planned.2.1 (.delete planned.2.2)
  · exact verifyDelete_accounts (deleting planned.1) planned.2.1 planned.2.2 rfl

/-! ## A whole reconcile -/

/-- What a reconcile goes on with once it was told about the record. -/
def afterRead [DecidableEq σ] (c : Controller σ) :
    Except Fault (Option (Record σ)) → Procedure σ (Except Fault Outcome)
  | .error fault => .done (.error fault)
  | .ok none => .done (.ok .finished)
  | .ok (some r) =>
      if r.metadata.isDeletionRequested then (c.reconcileDeletion r (c.permissions r)).run
      else (c.reconcilePresent r (c.permissions r)).run

theorem reconcile_eq_ask [DecidableEq σ] (c : Controller σ) (key : Key) :
    (c.reconcile key).run = .ask (.read key) c.afterRead := by
  rw [reconcile]
  apply congrArg (Procedure.ask (.read key))
  funext answer
  obtain fault | _ | r := answer
  · rfl
  · rfl
  · rw [afterRead]
    change ExceptT.run (if _ then _ else _) = _
    split <;> rfl

/-- Whatever it is answered, a reconcile gives an account of itself. -/
theorem reconcile_accounts [DecidableEq σ] (c : Controller σ) (key : Key) :
    (c.reconcile key).Upholds (c.attention key) (c.Account key) [] := by
  rw [reconcile, Attempt.upholds_bind, Attempt.upholds_read]
  refine ⟨trivial, fun answer fits => ?_⟩
  obtain fault | _ | r := answer
  · exact .unread rfl
  · exact .absent rfl
  simp only [Attempt.Onward]
  split
  case isTrue requested => exact reconcileDeletion_accounts (fits r rfl) requested
  case isFalse stays => exact reconcilePresent_accounts (Bool.eq_false_iff.mpr stays)

end Controller

end Steward
