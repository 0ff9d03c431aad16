import Steward.Proofs.Account
import Steward.Proofs.Scene

/-!
# One reconcile

A visit is a single reconcile of one key, from its first question on, in a store that may hold
anything when it begins.  As in a scene, others may use the store between any two of its deeds.  The
reconcile is alone with its record if none of them writes it.  Then it is shown the record as it is,
its writes go through unless the store fails, and the store holds what the reconcile left there last.
-/

namespace Steward

open Deed

variable {σ : Type}

namespace StoreOp

/-- The operation does not write the record under `key`. -/
def Spares (key : Key) : StoreOp σ → Prop
  | create r | update r _ | updateStatus r _ => r.key ≠ key
  | applySpec other _ | annotate other _ _ | requestDeletion other => other ≠ key
  | get _ | readStatus _ | contains _ | list | size | failNext _ => True

end StoreOp

theorem Store.Becomes.of_spares [DecidableEq σ] {key : Key} {op : StoreOp σ}
    {before after : Option (Record σ)} (becomes : Store.Becomes key op before after)
    (spares : op.Spares key) : after = before := by
  cases becomes with
  | unchanged => rfl
  | created own | updated own | statusUpdated own => exact absurd own spares
  | respecified | annotated | marked | dropped => exact absurd rfl spares

namespace Record

/-- What a write leaves of a record: one that is to be deleted is dropped with its last
finalizer. -/
def landed (r : Record σ) : Option (Record σ) :=
  if r.metadata.isDeletionRequested && r.metadata.finalizers.isEmpty then none else some r

theorem landed_of_held {r : Record σ} (held : r.metadata.finalizers ≠ []) :
    r.landed = some r := by
  rw [landed, if_neg]
  simp [held]

theorem landed_of_stays {r : Record σ} (stays : r.metadata.isDeletionRequested = false) :
    r.landed = some r := by
  rw [landed, if_neg]
  simp [stays]

end Record

namespace Deed

/-- What a deed leaves in the store, if it reads or writes the record. -/
def left? : Deed σ → Option (Option (Record σ))
  | .asked (.read _) (.ok found) => found.map some
  | .asked (.writeMetadata _) (.ok r) | .asked (.writeStatus _) (.ok r) => some r.landed
  | _ => none

/-- What is in the store after these deeds, where `before` was there before them. -/
def left (before : Option (Record σ)) (deeds : List (Deed σ)) : Option (Record σ) :=
  (deeds.findSome? left?).getD before

theorem left_cons (before : Option (Record σ)) (deed : Deed σ) (deeds : List (Deed σ)) :
    left before (deed :: deeds) = deed.left?.getD (left before deeds) := by
  rw [left, left, List.findSome?_cons]
  cases deed.left? <;> rfl

theorem left?_cases (deed : Deed σ) :
    (deed.record? = none ∧ deed.left? = none) ∨
      ∃ r, deed.record? = some r ∧ (deed.left? = some (some r) ∨ deed.left? = some r.landed) := by
  cases deed with
  | issued | ended | reported => exact .inl ⟨rfl, rfl⟩
  | asked query answer =>
      cases query with
      | readStatus => exact .inl ⟨rfl, rfl⟩
      | read =>
          obtain fault | _ | r := answer
          · exact .inl ⟨rfl, rfl⟩
          · exact .inl ⟨rfl, rfl⟩
          · exact .inr ⟨r, rfl, .inl rfl⟩
      | writeMetadata | writeStatus =>
          obtain fault | r := answer
          · exact .inl ⟨rfl, rfl⟩
          · exact .inr ⟨r, rfl, .inr rfl⟩

variable {before : Option (Record σ)} {deeds : List (Deed σ)} {r : Record σ}

/-- A record in hand that no write would drop is in the store. -/
theorem left_of_inHand (hand : inHand deeds = some r) (stays : r.landed = some r) :
    left before deeds = some r := by
  induction deeds with
  | nil => cases hand
  | cons deed deeds ih =>
      rw [inHand_cons] at hand
      obtain ⟨hidden, nothing⟩ | ⟨w, shown, kept | landed⟩ := deed.left?_cases
      · rw [hidden, Option.none_or] at hand
        rw [left_cons, nothing]
        exact ih hand
      · rw [shown, Option.some_or] at hand
        cases hand
        rw [left_cons, kept]
        rfl
      · rw [shown, Option.some_or] at hand
        cases hand
        rw [left_cons, landed, stays]
        rfl

/-- How a store answers a reconcile that is alone with its record, where `before` was there at
first. -/
def Undisputed (before : Option (Record σ)) : Deed σ → Prop
  | .asked (.read _) (.ok found) => found = before
  | .asked (.writeMetadata incoming) answer | .asked (.writeStatus incoming) answer =>
      answer = .ok (Store.bumped incoming) ∨ ∃ op reason, answer = .error (.store op reason)
  | _ => True

end Deed

/-! ## Writes that nobody came before -/

namespace Store

variable {s : Store σ}

/-- A write that is based on the stored record goes through, unless the store fails. -/
theorem writeWith_of_found (operation : String) (incoming : Record σ) {stored : Record σ}
    (change : Record σ → Record σ) (found : s.records[incoming.key]? = some stored)
    (current : incoming.metadata.resourceVersion = stored.metadata.resourceVersion)
    (keeps : (change stored).key = incoming.key) :
    (∃ reason, (s.writeWith operation incoming change).1 = .error (.store operation reason) ∧
      (s.writeWith operation incoming change).2.records = s.records) ∨
    ((s.writeWith operation incoming change).1 = .ok (bumped (change stored)) ∧
      (s.writeWith operation incoming change).2.records[incoming.key]? =
        (bumped (change stored)).landed) := by
  cases pending : s.faults with
  | succ n =>
      refine .inl ⟨"injected store fault", ?_⟩
      rw [writeWith, guarded, pending]
      exact ⟨rfl, rfl⟩
  | zero =>
      right
      rw [writeWith_of_current pending incoming found current, Record.landed]
      refine ⟨rfl, ?_⟩
      rw [bumped_isDeletionRequested, bumped_finalizers]
      by_cases drops : ((change stored).metadata.isDeletionRequested &&
          (change stored).metadata.finalizers.isEmpty) = true
      · rw [if_pos drops, if_pos drops]
        exact Std.ExtTreeMap.getElem?_erase_self
      · rw [if_neg drops, if_neg drops, ← keeps]
        exact Std.ExtTreeMap.getElem?_insert_self

/-- A store with a single record. -/
def only (r : Record σ) : Store σ := { records := (∅ : KeyMap (Record σ)).insert r.key r }

theorem only_filed (r : Record σ) : (only r).Filed := filed_empty.of_insert rfl

theorem rewritten_self [DecidableEq σ] (stored : Record σ) (finalizers : List String) :
    rewritten { stored with metadata := { stored.metadata with finalizers } } stored =
      { stored with metadata := { stored.metadata with finalizers } } := by
  simp [rewritten]

end Store

namespace Controller

variable {c : Controller σ} {key : Key} {deeds : List (Deed σ)}

/-- What a write of metadata is based on would not be dropped, and only the finalizers change. -/
theorem finalizers_of_writeMetadata {incoming : Record σ}
    (asks : (c.conduct key).asks deeds (.writeMetadata incoming)) :
    ∃ held finalizers, inHand deeds = some held ∧ held.key = key ∧ held.landed = some held ∧
      incoming = { held with metadata := { held.metadata with finalizers } } := by
  obtain ⟨held, hand, own, secures | releases⟩ := asks
  · refine ⟨held, held.metadata.finalizers ++ [c.definition.finalizer], hand, own,
      Record.landed_of_stays secures.stays, ?_⟩
    rw [secures.written, Metadata.addFinalizer_of_lacks secures.unguarded]
  · exact ⟨held, _, hand, own, Record.landed_of_held releases.guards.finalizers_ne_nil,
      releases.written⟩

end Controller

/-- What an access makes of a record that nobody else writes. -/
theorem Store.Answers.undisputed [DecidableEq σ] {c : Controller σ} {key : Key} {s t : Store σ}
    {query : Query σ} {answer : query.Answer} {deeds : List (Deed σ)} {before : Option (Record σ)}
    (answers : s.Answers query answer t) (asks : (c.conduct key).asks deeds query)
    (stored : s.records[key]? = left before deeds) :
    (Deed.asked query answer).Undisputed before ∧
      t.records[key]? = left before (.asked query answer :: deeds) := by
  rw [left_cons]
  cases answers with
  | readStatus => exact ⟨trivial, stored⟩
  | read k =>
      obtain ⟨rfl, rfl⟩ := asks
      have first : s.records[k]? = before := stored
      rw [get_records, first]
      generalize reply : (s.get k).1 = answer
      obtain fault | found := answer
      · exact ⟨trivial, rfl⟩
      obtain rfl := (get_ok reply).trans first
      exact ⟨rfl, by cases found <;> rfl⟩
  | writeMetadata incoming =>
      -- Nobody else wrote, so the record in hand is the stored one and its version is current.
      obtain ⟨held, finalizers, hand, rfl, lands, rfl⟩ := c.finalizers_of_writeMetadata asks
      rw [left_of_inHand hand lands] at stored
      rw [update_eq]
      obtain ⟨reason, refused, same⟩ | ⟨granted, after⟩ := writeWith_of_found "update"
        { held with metadata := { held.metadata with finalizers } }
        (rewritten { held with metadata := { held.metadata with finalizers } }) stored rfl rfl
      · rw [refused, same, left_of_inHand hand lands]
        exact ⟨.inr ⟨_, _, rfl⟩, stored⟩
      · rw [rewritten_self] at granted after
        rw [granted]
        exact ⟨.inl rfl, after⟩
  | writeStatus incoming =>
      obtain ⟨held, hand, rfl, records⟩ := asks
      obtain ⟨status, rfl⟩ := records.written
      have lands := Record.landed_of_held records.guards.finalizers_ne_nil
      rw [left_of_inHand hand lands] at stored
      rw [updateStatus_eq]
      obtain ⟨reason, refused, same⟩ | ⟨granted, after⟩ := writeWith_of_found "update_status"
        { held with status } (restated { held with status }) stored rfl rfl
      · rw [refused, same, left_of_inHand hand lands]
        exact ⟨.inr ⟨_, _, rfl⟩, stored⟩
      · rw [granted]
        exact ⟨.inl rfl, after⟩

/-! ## Visits -/

namespace Scene

variable [DecidableEq σ]

/-- The histories of a single reconcile of the record under `key`, newest first, that begins in the
store `start`. -/
inductive Visit (c : Controller σ) (key : Key) (may : Custom σ) (start : Store σ) :
    List (Happening σ) → Scene σ → Prop where
  | begin : Visit c key may start [] ⟨start, .running (c.reconcile key).run⟩
  | outside {past : List (Happening σ)} {s t : Scene σ} {op : StoreOp σ} {reply : StoreReply σ}
      (visit : Visit c key may start past s) (step : Step c key may s (.outside op reply) t) :
      Visit c key may start (.outside op reply :: past) t
  | did {past : List (Happening σ)} {s t : Scene σ} {deed : Deed σ}
      (visit : Visit c key may start past s) (step : Step c key may s (.did deed) t) :
      Visit c key may start (.did deed :: past) t

/-- Nobody else writes the record under `key`. -/
def Alone (key : Key) (may : Custom σ) : Prop :=
  ∀ (s : Store σ) (op : StoreOp σ), may s op → op.Spares key

variable {c : Controller σ} {key : Key} {may : Custom σ} {start : Store σ}
variable {past : List (Happening σ)} {s t : Scene σ}

theorem Visit.filed (visit : Visit c key may start past s) (filed : start.Filed) :
    s.store.Filed := by
  induction visit with
  | begin => exact filed
  | outside _ step ih | did _ step ih => exact step.filed ih

variable {conduct : Conduct σ} {post : List (Deed σ) → Except Fault Outcome → Prop}

/-- What is left of the reconcile keeps to what a whole reconcile keeps to. -/
theorem Visit.keeps (visit : Visit c key may start past s) (filed : start.Filed)
    (upholds : (c.reconcile key).Upholds conduct post []) :
    s.engine.Keeps conduct post (sitting past) := by
  induction visit with
  | begin => exact upholds
  | outside visit step ih | did visit step ih => exact step.keeps (visit.filed filed) upholds ih

/-- Where the reconcile has ended, what was promised of its result holds. -/
theorem Visit.ends {store : Store σ} {result : Except Fault Outcome}
    (visit : Visit c key may start past ⟨store, .running (.done result)⟩) (filed : start.Filed)
    (upholds : (c.reconcile key).Upholds conduct post []) : post (sitting past) result :=
  visit.keeps filed upholds

/-- Every call was in the conduct when it was issued. -/
theorem Visit.issued (visit : Visit c key may start past s) (filed : start.Filed)
    (upholds : (c.reconcile key).Upholds conduct post []) {newer older : List (Deed σ)} {call : Call}
    {id : String} {spec : σ} (history : sitting past = newer ++ .issued call id spec :: older) :
    conduct.calls older call id spec := by
  induction visit generalizing newer with
  | begin => cases newer <;> cases history
  | outside _ _ ih => exact ih history
  | did visit step ih =>
      obtain _ | ⟨_, newer⟩ := newer
      · cases history
        cases step with
        | issue => exact (visit.keeps filed upholds).1
      · exact ih (List.cons.inj history).2

/-- Every query was in the conduct when it was asked. -/
theorem Visit.asked (visit : Visit c key may start past s) (filed : start.Filed)
    (upholds : (c.reconcile key).Upholds conduct post []) {newer older : List (Deed σ)}
    {query : Query σ} {answer : query.Answer}
    (history : sitting past = newer ++ .asked query answer :: older) :
    conduct.asks older query := by
  induction visit generalizing newer with
  | begin => cases newer <;> cases history
  | outside _ _ ih => exact ih history
  | did visit step ih =>
      obtain _ | ⟨_, newer⟩ := newer
      · cases history
        cases step with
        | ask => exact (visit.keeps filed upholds).1
      · exact ih (List.cons.inj history).2

/-- A reconcile that is alone with its record is answered accordingly, and what it left of the record
is in the store. -/
theorem Visit.alone (visit : Visit c key may start past s) (filed : start.Filed)
    (alone : Alone key may) :
    (∀ deed ∈ sitting past, deed.Undisputed start.records[key]?) ∧
      s.store.records[key]? = left start.records[key]? (sitting past) := by
  induction visit with
  | begin => exact ⟨List.forall_mem_nil _, rfl⟩
  | outside visit step ih =>
      cases step with
      | outside now _ allowed =>
          have same := ((Store.perform_lawful (visit.filed filed) now _).becomes key).of_spares
            (alone _ _ allowed)
          exact ⟨ih.1, same.trans ih.2⟩
  | did visit step ih =>
      have keeps := visit.keeps filed (c.reconcile_upholds key)
      cases step with
      | ask answers =>
          have undisputed := answers.undisputed keeps.1 ih.2
          exact ⟨List.forall_mem_cons.mpr ⟨undisputed.1, ih.1⟩, undisputed.2⟩
      | issue | finish | report => exact ⟨List.forall_mem_cons.mpr ⟨trivial, ih.1⟩, ih.2⟩

/-- A reconcile reads its record once, before anything else. -/
theorem Visit.read_first (visit : Visit c key may start past s) (filed : start.Filed) {other : Key}
    {answer : Except Fault (Option (Record σ))}
    (read : .asked (.read other) answer ∈ sitting past) :
    (sitting past).getLast? = some (.asked (.read other) answer) := by
  obtain ⟨newer, older, history⟩ := List.append_of_mem read
  obtain ⟨rfl, _⟩ := visit.asked filed (c.reconcile_upholds key) history
  rw [history]
  exact List.getLast?_concat

theorem Visit.read_unique (visit : Visit c key may start past s) (filed : start.Filed)
    {first other : Record σ} (read : .asked (.read key) (.ok (some first)) ∈ sitting past)
    (again : .asked (.read key) (.ok (some other)) ∈ sitting past) : first = other := by
  have same := (visit.read_first filed read).symm.trans (visit.read_first filed again)
  simpa using same

/-! ## What a reconcile that is alone leaves -/

/-- The record that was read is the one that was stored. -/
theorem Visit.read_eq (visit : Visit c key may start past s) (filed : start.Filed)
    (alone : Alone key may) {found : Option (Record σ)}
    (read : .asked (.read key) (.ok found) ∈ sitting past) : found = start.records[key]? :=
  (visit.alone filed alone).1 _ read

theorem Visit.shown (visit : Visit c key may start past s) (filed : start.Filed)
    (alone : Alone key may) {first other : Record σ} (stored : start.records[key]? = some first)
    (read : .asked (.read key) (.ok (some other)) ∈ sitting past) : other = first :=
  Option.some.inj ((visit.read_eq filed alone read).trans stored)

end Scene

namespace Controller

variable {c : Controller σ} {deeds : List (Deed σ)} {first r : Record σ}
variable {before : Option (Record σ)}

/-- A record with the finalizer in place, as the store keeps it. -/
def secured (c : Controller σ) (r : Record σ) : Record σ :=
  if r.metadata.hasFinalizer c.definition.finalizer then r
  else Store.bumped { r with metadata := r.metadata.addFinalizer c.definition.finalizer }

theorem secured_of_guards (guards : c.Guards r) : c.secured r = r := if_pos guards

theorem secured_of_unguarded (unguarded : ¬ c.Guards r) :
    c.secured r =
      Store.bumped { r with metadata := r.metadata.addFinalizer c.definition.finalizer } :=
  if_neg unguarded

theorem secured_status (c : Controller σ) (r : Record σ) : (c.secured r).status = r.status := by
  rw [secured]
  split <;> rfl

theorem secured_spec (c : Controller σ) (r : Record σ) : (c.secured r).spec = r.spec := by
  rw [secured]
  split <;> rfl

theorem secured_key (c : Controller σ) (r : Record σ) : (c.secured r).key = r.key := by
  rw [secured]
  split
  · rfl
  · exact r.metadata.key_addFinalizer _

theorem secured_isDeletionRequested (c : Controller σ) (r : Record σ) :
    (c.secured r).metadata.isDeletionRequested = r.metadata.isDeletionRequested := by
  rw [secured]
  split
  · rfl
  case isFalse unguarded =>
    rw [Store.bumped_isDeletionRequested, Metadata.addFinalizer_of_lacks unguarded]
    rfl

theorem secured_guards (c : Controller σ) (r : Record σ) : c.Guards (c.secured r) := by
  by_cases guards : c.Guards r
  · rw [secured_of_guards guards]
    exact guards
  · rw [secured_of_unguarded guards]
    exact r.metadata.hasFinalizer_addFinalizer _

/-- The record that a reconcile works with is the one that was read, or that one with the finalizer
in place. -/
theorem Origin.undisputed (origin : c.Origin first deeds r)
    (undisputed : ∀ deed ∈ deeds, deed.Undisputed before) :
    r = first ∨ ¬ c.Guards first ∧ r = c.secured first := by
  cases origin with
  | found => exact .inl rfl
  | secured stays unguarded written =>
      right
      refine ⟨unguarded, ?_⟩
      rw [secured_of_unguarded unguarded]
      obtain granted | ⟨_, _, refused⟩ := undisputed _ written
      · exact Except.ok.inj granted
      · cases refused

theorem Origin.eq_secured (origin : c.Origin first deeds r) (guards : c.Guards r)
    (undisputed : ∀ deed ∈ deeds, deed.Undisputed before) : r = c.secured first := by
  obtain rfl | ⟨_, rfl⟩ := origin.undisputed undisputed
  · exact (secured_of_guards guards).symm
  · rfl

/-- A transition that is committed is in the store. -/
theorem Commits.stored {t : Transition} {outcome : Outcome} (commits : c.Commits r t deeds outcome)
    (guards : c.Guards r) (undisputed : ∀ deed ∈ deeds, deed.Undisputed before) :
    ∃ w, left before deeds = some w ∧ w.status = t.apply r.status := by
  obtain ⟨same, hand⟩ | ⟨w, hand, written⟩ := commits.written
  · exact ⟨r, left_of_inHand hand (Record.landed_of_held guards.finalizers_ne_nil), same.symm⟩
  obtain granted | ⟨_, _, refused⟩ := undisputed _ written
  · cases granted
    exact ⟨_, left_of_inHand hand (Record.landed_of_held guards.finalizers_ne_nil), rfl⟩
  · cases refused

/-- How a reconcile that was alone with its record settled it: `first` was stored at the beginning,
and `after` is stored in the end. -/
inductive Settles (c : Controller σ) (first : Record σ) (deeds : List (Deed σ))
    (after : Option (Record σ)) : Outcome → Prop where
  | free (requested : first.metadata.isDeletionRequested = true) (unguarded : ¬ c.Guards first)
      (uncalled : endings deeds = []) (kept : after = some first) :
      Settles c first deeds after .finished
  | released (requested : first.metadata.isDeletionRequested = true) (guards : c.Guards first)
      (vacant : c.Vacant first (endings deeds))
      (freed : after = (Store.bumped
        { first with
          metadata := first.metadata.removeFinalizer c.definition.finalizer }).landed) :
      Settles c first deeds after .finished
  | deletes {t : Transition} {w : Record σ}
      (requested : first.metadata.isDeletionRequested = true) (guards : c.Guards first)
      (concludes : c.Concludes (c.permissions first) first true (endings deeds) t)
      (stored : after = some w) (status : w.status = t.apply first.status) :
      Settles c first deeds after ⟨some w.status, some (c.requeueAfter t.phase)⟩
  | stays {t : Transition} {w : Record σ} (stays : first.metadata.isDeletionRequested = false)
      (resolves : c.Resolves (c.permissions first) (c.secured first) deeds t)
      (stored : after = some w) (status : w.status = t.apply first.status) :
      Settles c first deeds after ⟨some w.status, some (c.requeueAfter t.phase)⟩

end Controller

namespace Scene

variable [DecidableEq σ] {c : Controller σ} {key : Key} {may : Custom σ} {start store : Store σ}
variable {past : List (Happening σ)} {first : Record σ} {outcome : Outcome}

theorem Visit.settles
    (visit : Visit c key may start past ⟨store, .running (.done (.ok outcome))⟩)
    (filed : start.Filed) (alone : Alone key may) (stored : start.records[key]? = some first) :
    c.Settles first (sitting past) store.records[key]? outcome := by
  obtain ⟨undisputed, after⟩ := visit.alone filed alone
  have account := visit.ends filed (c.reconcile_accounts key)
  have shown {found : Option (Record σ)} (read : .asked (.read key) (.ok found) ∈ sitting past) :
      found = some first := (visit.read_eq filed alone read).trans stored
  rw [stored] at undisputed after
  cases account with
  | absent read =>
      rw [read] at shown
      cases shown (List.mem_singleton_self _)
  | free requested unguarded read =>
      rw [read] at shown after ⊢
      cases shown (List.mem_singleton_self _)
      exact .free requested unguarded rfl after
  | released read requested guards vacant written =>
      cases shown read
      refine .released requested guards vacant ?_
      obtain ⟨event, older, history⟩ := written
      rw [history] at undisputed after
      obtain granted | ⟨_, _, refused⟩ :=
        undisputed _ (List.mem_cons_of_mem _ List.mem_cons_self)
      · cases granted
        exact after
      · cases refused
  | deletes read requested guards concludes commits =>
      cases shown read
      obtain ⟨w, left, status⟩ := commits.stored guards undisputed
      obtain rfl := commits.outcome
      rw [← status]
      exact .deletes requested guards concludes (after.trans left) status
  | stays read stays origin guards resolves commits =>
      cases shown read
      obtain ⟨w, left, status⟩ := commits.stored guards undisputed
      obtain rfl := origin.eq_secured guards undisputed
      obtain rfl := commits.outcome
      rw [← status]
      exact .stays stays resolves (after.trans left) (status.trans (by rw [c.secured_status]))

end Scene

end Steward
