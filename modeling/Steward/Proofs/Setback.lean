import Steward.Proofs.Calls

/-!
# What a setback leaves behind

A reconcile may be cut short at any store access, by a call that overruns its budget, or by references
that cannot be told.  Whatever it did before, the record then is as it was, but for the finalizer that
may have been put in place.  A failure that the manager reports is no setback: as long as the store
does not fail, it is written down as the status of the record.
-/

namespace Steward

open Deed Controller Scene

variable {σ : Type}

/-! ## What is kept -/

namespace Controller

variable {c : Controller σ} {deeds : List (Deed σ)} {first r : Record σ}
variable {before : Option (Record σ)}

/-- Nothing of the record that anybody asked for has changed, and of its finalizers at most the
engine's own was added. -/
structure Kept (c : Controller σ) (first r : Record σ) : Prop where
  key : r.key = first.key
  spec : r.spec = first.spec
  status : r.status = first.status
  annotations : r.metadata.annotations = first.metadata.annotations
  deletionRequestedAt : r.metadata.deletionRequestedAt = first.metadata.deletionRequestedAt
  generation : r.metadata.generation = first.metadata.generation
  finalizers : r.metadata.finalizers = first.metadata.finalizers ∨
    ¬ c.Guards first ∧
      r.metadata.finalizers = first.metadata.finalizers ++ [c.definition.finalizer]

theorem Kept.refl (c : Controller σ) (r : Record σ) : c.Kept r r :=
  ⟨rfl, rfl, rfl, rfl, rfl, rfl, .inl rfl⟩

theorem kept_secured (unguarded : ¬ c.Guards first) : c.Kept first (c.secured first) := by
  rw [secured_of_unguarded unguarded, Metadata.addFinalizer_of_lacks unguarded]
  exact ⟨rfl, rfl, rfl, rfl, rfl, rfl, .inr ⟨unguarded, rfl⟩⟩

/-- A record that a reconcile has in hand is kept, and it is in the store. -/
theorem Origin.kept (origin : c.Origin first deeds r)
    (undisputed : ∀ deed ∈ deeds, deed.Undisputed before) :
    c.Kept first r ∧ r.landed = some r := by
  constructor
  · obtain rfl | ⟨unguarded, rfl⟩ := origin.undisputed undisputed
    · exact .refl c r
    · exact kept_secured unguarded
  · cases origin with
    | found guards =>
        cases requested : first.metadata.isDeletionRequested with
        | true => exact Record.landed_of_held (guards requested).finalizers_ne_nil
        | false => exact Record.landed_of_stays requested
    | secured stays unguarded written =>
        obtain granted | ⟨_, _, refused⟩ := undisputed _ written
        · cases granted
          apply Record.landed_of_stays
          rw [Store.bumped_isDeletionRequested, Metadata.addFinalizer_of_lacks unguarded]
          exact stays
        · cases refused

end Controller

/-! ## Failures that the manager reports -/

/-- The manager reported a failure, in its own words or as the result of the call. -/
inductive Ended.Fails : Ended → Prop where
  | worded (call : Call) (message : String) : Fails ⟨call, some (.error message)⟩
  | create (payload : Option Payload) : Fails ⟨.create, some (.ok ⟨.error, payload⟩)⟩
  | update (payload : Option Payload) : Fails ⟨.update, some (.ok ⟨.error, payload⟩)⟩
  | verify (payload : Option Payload) : Fails ⟨.verify, some (.ok ⟨.error, payload⟩)⟩
  | delete : Fails ⟨.delete, some (.ok .error)⟩

theorem Ended.Fails.answered {call : Call} {ending : call.Ending} (fails : Fails ⟨call, ending⟩) :
    ending ≠ none := by
  cases fails <;> exact nofun

variable {status : Status} {deleting : Bool} {ended : List Ended} {call : Call}

/-- A call that another one follows was answered, and its answer was no failure. -/
theorem Due.sound (due : Due status deleting ended call) :
    ∀ e ∈ ended, e.2 ≠ none ∧ ¬ e.Fails := by
  cases due with
  | create | probe | delete | poll => exact List.forall_mem_nil _
  | apply issued verdict =>
      rw [List.forall_mem_singleton]
      obtain ⟨_, rfl, _⟩ | ⟨_, rfl⟩ := Verdict.ofCondition_eq_apply verdict
      · exact ⟨nofun, nofun⟩
      · exact ⟨nofun, nofun⟩
  | reissue issued reissue =>
      rw [List.forall_mem_singleton]
      obtain ⟨_, rfl | rfl⟩ := DeletionProgress.afterVerify_eq_reissue reissue
      · exact ⟨nofun, nofun⟩
      · exact ⟨nofun, nofun⟩

/-- No call overran its budget in a reconcile in which the manager reported a failure. -/
theorem Orderly.answered (orderly : Orderly ended []) {e : Ended} (done : e ∈ ended)
    (fails : e.Fails) : ∀ other ∈ ended, other.2 ≠ none := by
  cases orderly with
  | uncalled => cases done
  | ended due ending =>
      obtain rfl | before := List.mem_cons.mp done
      · exact List.forall_mem_cons.mpr
          ⟨fails.answered, fun other earlier => (due.sound other earlier).1⟩
      · exact absurd fails (due.sound e before).2

namespace Controller

variable {c : Controller σ} {permissions : Permissions} {r : Record σ} {t : Transition} {e : Ended}

/-- What is concluded after a failure is a failure. -/
theorem Concludes.phase_of_fails (concludes : c.Concludes permissions r deleting ended t)
    (done : e ∈ ended) (fails : e.Fails) : t.phase = .failed := by
  cases concludes with
  | invalid | waits => cases done
  | denied | probeFailed => rfl
  | created due answer | updated due answer =>
      obtain rfl | before := List.mem_cons.mp done
      · cases fails <;> rfl
      · exact absurd fails (due.sound e before).2
  | settled due verdict =>
      obtain rfl := List.mem_singleton.mp done
      cases fails with
      | verify =>
          cases verdict
          rfl
  | deleted due answer progress =>
      obtain rfl | before := List.mem_cons.mp done
      · cases fails <;> cases progress <;> rfl
      · exact absurd fails (due.sound e before).2
  | polled due answer progress =>
      obtain rfl := List.mem_singleton.mp done
      cases fails <;> cases progress <;> rfl

/-- Neither a record that waits nor one that is invalid has a call that fails. -/
theorem Resolves.phase_of_fails {deeds : List (Deed σ)} (resolves : c.Resolves permissions r deeds t)
    (done : e ∈ endings deeds) (fails : e.Fails) : t.phase = .failed := by
  cases resolves with
  | invalid _ uncalled | waits _ _ _ _ uncalled =>
      rw [uncalled] at done
      cases done
  | drives _ concludes => exact concludes.phase_of_fails done fails

/-- The finalizer does not go after a failure. -/
theorem Vacant.sound (vacant : c.Vacant r ended) : ∀ e ∈ ended, ¬ e.Fails := by
  cases vacant with
  | denied => exact List.forall_mem_nil _
  | gone => exact List.forall_mem_singleton.mpr nofun
  | deleted due => exact List.forall_mem_cons.mpr ⟨nofun, fun e before => (due.sound e before).2⟩

end Controller

/-- A write of a reconcile that is alone with its record is refused only by a store that fails. -/
theorem Deed.Undisputed.failing {before : Option (Record σ)} {query : Query σ} {fault : Fault}
    (undisputed : (Deed.asked query (query.refusal fault)).Undisputed before) {incoming : Record σ}
    (written : query.written? = some incoming) : ∃ op reason, fault = .store op reason := by
  cases query with
  | read | readStatus => cases written
  | writeMetadata | writeStatus =>
      obtain granted | ⟨op, reason, refused⟩ := undisputed
      · cases granted
      · exact ⟨op, reason, Except.error.inj refused⟩

namespace Scene

variable [DecidableEq σ] {c : Controller σ} {key : Key} {may : Custom σ} {start store : Store σ}
variable {past : List (Happening σ)} {r : Record σ} {fault : Fault} {result : Except Fault Outcome}

/-- Wherever a reconcile is cut short, the record is kept. -/
theorem Visit.kept
    (visit : Visit c key may start past ⟨store, .running (.done (.error fault))⟩)
    (filed : start.Filed) (alone : Alone key may) (stored : start.records[key]? = some r) :
    ∃ w, store.records[key]? = some w ∧ c.Kept r w := by
  obtain ⟨undisputed, after⟩ := visit.alone filed alone
  have account := visit.ends filed (c.reconcile_accounts key)
  rw [after]
  cases account with
  | unread read =>
      rw [read]
      exact ⟨r, stored, .refl c r⟩
  | cut cut =>
      obtain rfl := visit.shown filed alone stored cut.read
      obtain ⟨w, hand, origin⟩ := cut.hand
      obtain ⟨kept, lands⟩ := origin.kept undisputed
      exact ⟨w, left_of_inHand hand lands, kept⟩

/-- A reconcile does not make up a record. -/
theorem Visit.stays_absent
    (visit : Visit c key may start past ⟨store, .running (.done result)⟩)
    (filed : start.Filed) (alone : Alone key may) (absent : start.records[key]? = none) :
    store.records[key]? = none := by
  obtain ⟨_, after⟩ := visit.alone filed alone
  have unread {first : Record σ} : .asked (.read key) (.ok (some first)) ∉ sitting past :=
    fun read => nomatch (visit.read_eq filed alone read).trans absent
  rw [after]
  cases visit.ends filed (c.reconcile_accounts key) with
  | unread read | absent read =>
      rw [read]
      exact absent
  | cut cut => exact absurd cut.read unread
  | free _ _ read =>
      rw [read] at unread
      exact absurd List.mem_cons_self unread
  | released read | deletes read | stays read => exact absurd read unread

/-- A failure that the manager reports does not cut a reconcile short, unless the store fails, and it
is written down. -/
theorem Visit.records_failure
    (visit : Visit c key may start past ⟨store, .running (.done result)⟩) (filed : start.Filed)
    (alone : Alone key may)
    (sound : ∀ (query : Query σ) (op reason : String),
      .asked query (query.refusal (.store op reason)) ∉ sitting past)
    {e : Ended} (done : e ∈ endings (sitting past)) (fails : e.Fails) :
    ∃ outcome w, result = .ok outcome ∧ store.records[key]? = some w ∧
      outcome.status = some w.status ∧ w.status.phase = some .failed := by
  cases result with
  | error fault =>
      -- None of the reasons to be cut short is there.
      exfalso
      cases visit.ends filed (c.reconcile_accounts key) with
      | unread read =>
          rw [read] at done
          cases done
      | cut cut =>
          obtain uncalled | ⟨call, overran⟩ | ⟨query, incoming, fault, written, refused⟩ := cut.cause
          · rw [uncalled] at done
            cases done
          · exact (visit.orderly filed).1.answered done fails ⟨call, none⟩
              (mem_endings.mpr overran) rfl
          · have undisputed := (visit.alone filed alone).1 _ refused
            obtain ⟨op, reason, rfl⟩ := undisputed.failing written
            exact sound query op reason refused
  | ok outcome =>
      obtain ⟨older, first, _, kept, attends, _⟩ :=
        visit.called filed ((visit.mem_calls_iff filed).mpr ⟨e, done, rfl⟩)
      have stored := visit.read_eq filed alone (kept attends.read)
      cases visit.settles filed alone stored.symm with
      | free _ _ uncalled =>
          rw [uncalled] at done
          cases done
      | released _ _ vacant => exact absurd fails (vacant.sound e done)
      | @deletes t w _ _ concludes after status =>
          refine ⟨_, w, rfl, after, rfl, ?_⟩
          rw [status, phase_apply, concludes.phase_of_fails done fails]
      | @stays t w _ resolves after status =>
          refine ⟨_, w, rfl, after, rfl, ?_⟩
          rw [status, phase_apply, resolves.phase_of_fails done fails]

/-- A reconcile that is alone with its record and ends.  If it was cut short, by whatever fault and
wherever, the record is kept.  If the manager reported a failure and the store never failed, it was
not cut short, and the failure is what the record says. -/
theorem setback_keeps_record
    (visit : Visit c key may start past ⟨store, .running (.done result)⟩) (filed : start.Filed)
    (alone : Alone key may) :
    (∀ fault, result = .error fault →
      (start.records[key]? = none → store.records[key]? = none) ∧
      ∀ r, start.records[key]? = some r → ∃ w, store.records[key]? = some w ∧ c.Kept r w) ∧
    ((∀ (query : Query σ) (op reason : String),
        .asked query (query.refusal (.store op reason)) ∉ sitting past) →
      ∀ e ∈ endings (sitting past), e.Fails →
        ∃ outcome w, result = .ok outcome ∧ store.records[key]? = some w ∧
          outcome.status = some w.status ∧ w.status.phase = some .failed) := by
  constructor
  · rintro fault rfl
    exact ⟨visit.stays_absent filed alone, fun r stored => visit.kept filed alone stored⟩
  · intro sound e done fails
    exact visit.records_failure filed alone sound done fails

/-- A store that fails after the sample was created, and a manager that fails to create it. -/
theorem setback_keeps_record_of_failures :
    (∃ past store fault w,
      Visit sample sampleKey (fun _ op => op.Spares sampleKey) (.only sampleRecord) past
        ⟨store, .running (.done (.error fault))⟩ ∧
      calls (sitting past) = [.create] ∧ store.records[sampleKey]? = some w ∧
      sample.Kept sampleRecord w) ∧
    (∃ past store result w,
      Visit sample sampleKey (fun _ op => op.Spares sampleKey) (.only guardedSample) past
        ⟨store, .running (.done result)⟩ ∧
      calls (sitting past) = [.create] ∧ store.records[sampleKey]? = some w ∧
      w.status.phase = some .failed) := by
  constructor
  · have read : Visit sample sampleKey (fun _ op => op.Spares sampleKey) (.only sampleRecord) _ _ :=
      .did .begin (.ask (.read _ sampleKey))
    have secured := read.did (.ask (.writeMetadata _ _))
    have created := (secured.did .issue).did (.finish .create (some (.ok ⟨.succeeded, none⟩)))
    have failing := created.outside (.outside sampleInstant (.failNext 1) trivial)
    have ended := failing.did (.ask (.writeStatus _ _))
    obtain ⟨kept, _⟩ := setback_keeps_record ended (Store.only_filed _) fun _ _ allowed => allowed
    obtain ⟨w, after, kept⟩ := (kept _ rfl).2 sampleRecord rfl
    exact ⟨_, _, _, w, ended, rfl, after, kept⟩
  · have read : Visit sample sampleKey (fun _ op => op.Spares sampleKey) (.only guardedSample) _ _ :=
      .did .begin (.ask (.read _ sampleKey))
    have failed := (read.did .issue).did (.finish .create (some (.error "no capacity")))
    have ended := (failed.did (.ask (.writeStatus _ _))).did .report
    obtain ⟨_, recorded⟩ := setback_keeps_record ended (Store.only_filed _) fun _ _ allowed => allowed
    -- The store shows the record and takes its status: no answer is a refusal.
    obtain ⟨_, w, _, after, _, phase⟩ := recorded
      (by rintro query op reason (_ | ⟨_, _ | ⟨_, _ | ⟨_, _ | ⟨_, _ | ⟨_, ⟨⟩⟩⟩⟩⟩⟩))
      _ List.mem_cons_self (.worded .create "no capacity")
    exact ⟨_, _, _, w, ended, rfl, after, phase⟩

end Scene

end Steward
