import Mathlib.Data.Finset.Erase
import Mathlib.Data.Finset.Insert
import Steward.Proofs.Records

/-!
# The traces of operations

An operation on a store comes to one of a few ends: a pending failure takes its place, it is
refused, or it is granted.  Only the last leaves a trace, so the operations that fail can be left
out of a sequence, together with the orders to fail, and the others are answered as before.  An
operation that is granted and writes announces one change, of the kind that tells what became of its
record; who replays the changes knows which records there are.
-/

namespace Steward

variable {σ α : Type}

namespace StoreOp

/-- The name under which an access may fail; looking without access never does. -/
def access? : StoreOp σ → Option String
  | create _ => some "create"
  | update _ _ => some "update"
  | updateStatus _ _ => some "update_status"
  | applySpec _ _ => some "apply_spec"
  | annotate _ _ _ => some "set_annotation"
  | requestDeletion _ => some "request_deletion"
  | get _ => some "get"
  | readStatus _ => some "read_status"
  | contains _ | list | size | failNext _ => none

def fallible (op : StoreOp σ) : Bool := op.access?.isSome

/-- The operation orders failures. -/
def ordersFailures : StoreOp σ → Bool
  | failNext _ => true
  | _ => false

/-- The key of the record that a write is about. -/
def written? : StoreOp σ → Option Key
  | create r | update r _ | updateStatus r _ => some r.key
  | applySpec key _ | annotate key _ _ | requestDeletion key => some key
  | get _ | readStatus _ | contains _ | list | size | failNext _ => none

end StoreOp

namespace StoreReply

def isFault : StoreReply σ → Bool
  | fault _ => true
  | _ => false

/-- The store could not be accessed. -/
def IsStoreFault (reply : StoreReply σ) : Prop :=
  ∃ operation reason, reply = .fault (.store operation reason)

end StoreReply

namespace Store

variable {s t : Store σ} {now : Instant} {op : StoreOp σ}

/-- The store without the failures that are pending. -/
def calm (s : Store σ) : Store σ := { s with faults := 0 }

theorem calm_of_sound (sound : s.faults = 0) : s.calm = s := by
  obtain ⟨records, faults, announced⟩ := s
  cases sound
  rfl

/-! ## The ends of an operation -/

/-- The trace of an operation that is granted: none, or that of a write under its key. -/
inductive Trace (s : Store σ) : Option Key → Store σ → Prop where
  | none : Trace s none s
  | filed (r : Record σ) (free : r.key ∉ s.records) : Trace s (some r.key) (s.put .added r)
  | rewritten (r : Record σ) (taken : r.key ∈ s.records) : Trace s (some r.key) (s.put .modified r)
  | dropped (key : Key) (taken : key ∈ s.records) : Trace s (some key) (s.drop key)

/-- An access of which no pending failure takes the place. -/
inductive Accesses (s : Store σ) (written : Option Key) : Except Fault α × Store σ → Prop where
  | refused {fault : Fault} (other : ∀ operation reason, fault ≠ .store operation reason) :
      Accesses s written (.error fault, s)
  | granted (a : α) {t : Store σ} (trace : Trace s written t) : Accesses s written (.ok a, t)

/-- How an operation may end. -/
inductive Ends [DecidableEq σ] (now : Instant) (s : Store σ) (op : StoreOp σ) :
    StoreReply σ × Store σ → Prop where
  | injected {name : String} {n : Nat} (accesses : op.access? = some name)
      (pending : s.faults = n + 1) :
      Ends now s op (.fault (.store name "injected store fault"), { s with faults := n })
  | refused {fault : Fault} (fallible : op.fallible = true) (sound : s.faults = 0)
      (other : ∀ operation reason, fault ≠ .store operation reason) :
      Ends now s op (.fault fault, s)
  | granted {reply : StoreReply σ} {t : Store σ} (fallible : op.fallible = true)
      (sound : s.faults = 0) (answered : reply.isFault = false) (trace : Trace s op.written? t) :
      Ends now s op (reply, t)
  | looked {reply : StoreReply σ} (infallible : op.fallible = false)
      (obeys : op.ordersFailures = false) (reads : op.written? = none)
      (answered : reply.isFault = false) (same : s.calm.perform now op = (reply, s.calm)) :
      Ends now s op (reply, s)
  | ordered {count : Nat} (orders : op = .failNext count) : Ends now s op (.done, s.failNext count)

theorem accesses_withRecord {key : Key} {written : Option Key}
    {act : Record σ → Except Fault α × Store σ}
    (accesses : ∀ stored, s.records[key]? = some stored → Accesses s written (act stored)) :
    Accesses s written (s.withRecord key act) := by
  rw [withRecord]
  split
  · exact .refused fun _ _ => Fault.noConfusion
  next found => exact accesses _ found

theorem mem_of_found {key : Key} {stored : Record σ} (found : s.records[key]? = some stored) :
    key ∈ s.records :=
  Std.ExtTreeMap.mem_iff_isSome_getElem?.mpr (by rw [found]; rfl)

/-- A record takes the place of the one that was found. -/
theorem Trace.of_found (filed : s.Filed) {key : Key} {stored r : Record σ}
    (found : s.records[key]? = some stored) (own : r.key = stored.key) :
    Trace s (some key) (s.put .modified r) := by
  obtain rfl : r.key = key := own.trans (filed key stored found)
  exact .rewritten r (mem_of_found found)

variable [DecidableEq σ]

/-- An access that is guarded ends in one of three ways. -/
theorem ends_guarded {name : String} {ok : α → StoreReply σ} {access : Except Fault α × Store σ}
    (named : op.access? = some name) (answers : ∀ a, (ok a).isFault = false)
    (accesses : Accesses s op.written? access) :
    Ends now s op (reply ok (s.guarded name access)) := by
  have fallible : op.fallible = true := by rw [StoreOp.fallible, named]; rfl
  rw [guarded]
  split
  next sound =>
    cases accesses with
    | refused other => exact .refused fallible sound other
    | granted a trace => exact .granted fallible sound (answers a) trace
  next n pending => exact .injected named pending

theorem ends_writeWith (filed : s.Filed) {name : String} {incoming : Record σ}
    {change : Record σ → Record σ} (named : op.access? = some name)
    (own : op.written? = some incoming.key) (keeps : ∀ r, (change r).key = r.key) :
    Ends now s op (reply .record (s.writeWith name incoming change)) := by
  refine ends_guarded named (fun _ => rfl) (accesses_withRecord fun stored found => ?_)
  rw [own]
  dsimp only
  split
  · exact .refused nofun
  split
  · exact .granted _ (.dropped _ (mem_of_found found))
  · exact .granted _ (.of_found filed found (keeps stored))

/-- However an operation ends, it is one of these ways. -/
theorem perform_ends (filed : s.Filed) (now : Instant) (op : StoreOp σ) :
    Ends now s op (s.perform now op) := by
  have based (r : Record σ) (latest : Bool) : r.key = (if latest then s.rebased r else r).key := by
    rw [apply_ite Record.key, rebased_key, ite_self]
  cases op with
  | create r =>
      refine ends_guarded rfl (fun _ => rfl) ?_
      split
      · exact .refused nofun
      next free => exact .granted _ (.filed (fresh r) free)
  | update r latest =>
      exact ends_writeWith filed rfl (congrArg some (based r latest)) fun _ => rfl
  | updateStatus r latest =>
      exact ends_writeWith filed rfl (congrArg some (based r latest)) fun _ => rfl
  | applySpec | annotate =>
      refine ends_guarded rfl (fun _ => rfl) (accesses_withRecord fun stored found => ?_)
      exact .granted _ (.of_found filed found rfl)
  | requestDeletion key =>
      refine ends_guarded rfl (fun _ => rfl) (accesses_withRecord fun stored found => ?_)
      dsimp only
      split
      · exact .granted () (.dropped key (mem_of_found found))
      split
      · exact .granted () (.of_found filed found rfl)
      · exact .granted () (.of_found filed found rfl)
  | get | readStatus => exact ends_guarded rfl (by rintro (_ | _) <;> rfl) (.granted _ .none)
  | contains | list | size => exact .looked rfl rfl rfl rfl rfl
  | failNext => exact .ordered rfl

/-! ## Pending failures -/

omit [DecidableEq σ] in
theorem Trace.faults {written : Option Key} (trace : Trace s written t) :
    t.faults = s.faults := by
  cases trace <;> rfl

variable {result : StoreReply σ × Store σ}

/-- An access uses up a failure that is pending, and nothing else does. -/
theorem Ends.faults (ends : Ends now s op result) (obeys : op.ordersFailures = false) :
    result.2.faults = s.faults - if op.fallible then 1 else 0 := by
  cases ends with
  | injected accesses pending =>
      rw [StoreOp.fallible, accesses, pending]
      rfl
  | refused fallible sound => rw [sound, Nat.zero_sub]
  | granted fallible sound _ trace => rw [trace.faults, sound, Nat.zero_sub]
  | looked infallible => rw [infallible]; rfl
  | ordered orders =>
      subst orders
      cases obeys

/-- The store cannot be accessed exactly when a failure is pending. -/
theorem Ends.isStoreFault_iff (ends : Ends now s op result) :
    result.1.IsStoreFault ↔ op.fallible = true ∧ 0 < s.faults := by
  have ok {reply : StoreReply σ} (answered : reply.isFault = false) : ¬ reply.IsStoreFault := by
    rintro ⟨operation, reason, rfl⟩
    cases answered
  cases ends with
  | injected accesses pending =>
      rw [StoreOp.fallible, accesses, pending]
      exact iff_of_true ⟨_, _, rfl⟩ ⟨rfl, Nat.succ_pos _⟩
  | refused fallible sound other =>
      rw [sound]
      refine iff_of_false ?_ fun pending => Nat.lt_irrefl 0 pending.2
      rintro ⟨operation, reason, same⟩
      exact other operation reason (StoreReply.fault.inj same)
  | granted fallible sound answered =>
      rw [sound]
      exact iff_of_false (ok answered) fun pending => Nat.lt_irrefl 0 pending.2
  | looked infallible _ _ answered =>
      rw [infallible]
      exact iff_of_false (ok answered) fun pending => Bool.false_ne_true pending.1
  | ordered orders =>
      subst orders
      exact iff_of_false (ok rfl) fun pending => Bool.false_ne_true pending.1

/-- Each access uses up one failure, for as long as there are some. -/
theorem performAll_faults (filed : s.Filed) {calls : List (Instant × StoreOp σ)}
    (obey : ∀ call ∈ calls, call.2.ordersFailures = false) :
    (s.performAll calls).faults = s.faults - calls.countP fun call => call.2.fallible := by
  induction calls generalizing s with
  | nil => rfl
  | cons call calls ih =>
      have one := (perform_ends filed call.1 call.2).faults (obey call List.mem_cons_self)
      have rest := ih (perform_lawful filed call.1 call.2).filed fun later among =>
        obey later (List.mem_cons_of_mem _ among)
      rw [List.countP_cons, Nat.add_comm, ← Nat.sub_sub, ← one]
      exact rest

/-! ## Leaving out what fails -/

/-- The operations of a sequence, each with its answer. -/
def log (s : Store σ) :
    List (Instant × StoreOp σ) → List ((Instant × StoreOp σ) × StoreReply σ)
  | [] => []
  | (now, op) :: ops => ((now, op), (s.perform now op).1) :: (s.perform now op).2.log ops

omit [DecidableEq σ] in
/-- The operation was granted, and it is not an order to fail. -/
def counts (entry : (Instant × StoreOp σ) × StoreReply σ) : Bool :=
  !entry.1.2.ordersFailures && !entry.2.isFault

/-- An operation that does not count leaves nothing but pending failures, and one that counts does
not depend on them. -/
theorem Ends.calm (ends : Ends now s op (s.perform now op)) :
    if counts ((now, op), (s.perform now op).1) then
      s.calm.perform now op = ((s.perform now op).1, (s.perform now op).2.calm)
    else (s.perform now op).2.calm = s.calm := by
  generalize performed : s.perform now op = result at ends ⊢
  cases ends with
  | injected | refused => rw [counts, Bool.and_comm]; rfl
  | @granted reply t fallible sound answered trace =>
      have obeys : op.ordersFailures = false := by
        cases op with
        | failNext => cases fallible
        | _ => rfl
      have calmed : t.calm = t := calm_of_sound (trace.faults.trans sound)
      rw [counts, obeys, answered, calm_of_sound sound, performed, calmed]
      rfl
  | looked _ obeys _ answered same =>
      rw [counts, obeys, answered]
      exact same
  | ordered orders =>
      subst orders
      rfl

/-- Without what failed and the orders to fail, the rest is answered as before and comes to the same
records and announcements. -/
theorem log_of_counts (filed : s.Filed) (ops : List (Instant × StoreOp σ)) :
    s.calm.log (((s.log ops).filter counts).map Prod.fst) = (s.log ops).filter counts ∧
      s.calm.performAll (((s.log ops).filter counts).map Prod.fst) = (s.performAll ops).calm := by
  induction ops generalizing s with
  | nil => exact ⟨rfl, rfl⟩
  | cons timed ops ih =>
      obtain ⟨now, op⟩ := timed
      have ends := (perform_ends filed now op).calm
      have further := ih (perform_lawful filed now op).filed
      rw [log, List.filter_cons]
      split at ends
      next counting =>
        rw [if_pos counting, List.map_cons, log, ends, further.1]
        refine ⟨rfl, ?_⟩
        change (s.calm.perform now op).2.performAll _ = _
        rw [ends]
        exact further.2
      next idle =>
        rw [if_neg idle, ← ends]
        exact further

/-! ## Announcements -/

/-- What a reader of the announcements learns of an operation. -/
structure Tells (s : Store σ) (op : StoreOp σ) (reply : StoreReply σ) (t : Store σ) : Prop where
  write : ∀ key, op.written? = some key → reply.isFault = false →
    ∃ kind, t.announced = s.announced.push ⟨kind, key⟩ ∧
      (kind = .added ↔ key ∉ s.records) ∧ (kind = .deleted ↔ key ∉ t.records)
  still : op.written? = none ∨ reply.isFault = true →
    t.announced = s.announced ∧ t.records = s.records

omit [DecidableEq σ] in
theorem mem_put (s : Store σ) (kind : ChangeKind) (r : Record σ) :
    r.key ∈ (s.put kind r).records :=
  Std.ExtTreeMap.mem_insert_self

omit [DecidableEq σ] in
theorem Trace.tells {reply : StoreReply σ} (trace : Trace s op.written? t)
    (answered : reply.isFault = false) : Tells s op reply t where
  write key own _ := by
    rw [own] at trace
    cases trace with
    | filed r free =>
        exact ⟨.added, rfl, iff_of_true rfl free,
          iff_of_false nofun fun gone => gone (mem_put s .added r)⟩
    | rewritten r taken =>
        exact ⟨.modified, rfl, iff_of_false nofun fun free => free taken,
          iff_of_false nofun fun gone => gone (mem_put s .modified r)⟩
    | dropped key taken =>
        refine ⟨.deleted, rfl, iff_of_false nofun fun free => free taken, iff_of_true rfl ?_⟩
        exact fun left => (Std.ExtTreeMap.mem_erase.mp left).1 Std.ReflCmp.compare_self
  still silent := by
    obtain reads | failed := silent
    · rw [reads] at trace
      cases trace
      exact ⟨rfl, rfl⟩
    · cases answered.symm.trans failed

omit [DecidableEq σ] in
/-- What changes no record and announces nothing is told, if it is no write or failed. -/
theorem tells_of_still {reply : StoreReply σ} (records : t.records = s.records)
    (announced : t.announced = s.announced)
    (silent : op.written? = none ∨ reply.isFault = true) : Tells s op reply t where
  write key own answered := by
    obtain reads | failed := silent
    · cases reads.symm.trans own
    · cases failed.symm.trans answered
  still _ := ⟨announced, records⟩

theorem Ends.tells (ends : Ends now s op result) : Tells s op result.1 result.2 := by
  cases ends with
  | injected | refused => exact tells_of_still rfl rfl (.inr rfl)
  | granted _ _ answered trace => exact trace.tells answered
  | looked _ _ reads => exact tells_of_still rfl rfl (.inl reads)
  | ordered orders =>
      subst orders
      exact tells_of_still rfl rfl (.inl rfl)

end Store

/-! ## Replaying announcements -/

/-- The keys after a change; a key that is not there cannot be modified. -/
def Change.replay (keys : Finset Key) (change : Change) : Option (Finset Key) :=
  match change.kind with
  | .added => some (insert change.key keys)
  | .modified => if change.key ∈ keys then some keys else none
  | .deleted => some (keys.erase change.key)

namespace Store

variable {s t : Store σ}

/-- To replay the announcements from no keys at all leads to the keys of the records. -/
def Charted (s : Store σ) : Prop :=
  ∃ keys, s.announced.toList.foldlM Change.replay ∅ = some keys ∧
    ∀ key, key ∈ keys ↔ key ∈ s.records

theorem charted_empty : ({} : Store σ).Charted :=
  ⟨∅, rfl, fun key => iff_of_false (Finset.notMem_empty key) Std.ExtTreeMap.not_mem_empty⟩

theorem Charted.of_push {keys after : Finset Key} {change : Change}
    (chart : s.announced.toList.foldlM Change.replay ∅ = some keys)
    (replays : change.replay keys = some after)
    (announced : t.announced = s.announced.push change)
    (same : ∀ key, key ∈ after ↔ key ∈ t.records) : t.Charted := by
  refine ⟨after, ?_, same⟩
  rw [announced, Array.toList_push, List.foldlM_append, chart]
  simpa using replays

theorem Trace.charted {written : Option Key} (trace : Trace s written t) (charted : s.Charted) :
    t.Charted := by
  obtain ⟨keys, chart, known⟩ := charted
  cases trace with
  | none => exact ⟨keys, chart, known⟩
  | filed r =>
      refine .of_push chart rfl rfl fun key => ?_
      change _ ↔ key ∈ s.records.insert r.key r
      rw [Finset.mem_insert, Std.ExtTreeMap.mem_insert, Std.LawfulEqCmp.compare_eq_iff_eq, known,
        eq_comm]
  | rewritten r taken =>
      have replays : Change.replay keys ⟨.modified, r.key⟩ = some keys :=
        if_pos ((known r.key).mpr taken)
      refine .of_push chart replays rfl fun key => ?_
      change _ ↔ key ∈ s.records.insert r.key r
      rw [Std.ExtTreeMap.mem_insert, Std.LawfulEqCmp.compare_eq_iff_eq, known]
      exact ⟨.inr, fun there => there.elim (fun own => own ▸ taken) id⟩
  | dropped gone =>
      refine .of_push chart rfl rfl fun key => ?_
      change _ ↔ key ∈ s.records.erase gone
      rw [Finset.mem_erase, Std.ExtTreeMap.mem_erase, known, ne_comm]
      exact and_congr_left' (not_congr Std.LawfulEqCmp.compare_eq_iff_eq.symm)

variable [DecidableEq σ] {now : Instant} {op : StoreOp σ} {result : StoreReply σ × Store σ}

theorem Ends.charted (ends : Ends now s op result) (charted : s.Charted) : result.2.Charted := by
  cases ends with
  | injected | refused | looked | ordered => exact charted
  | granted _ _ _ trace => exact trace.charted charted

theorem Charted.performAll (charted : s.Charted) (filed : s.Filed)
    (ops : List (Instant × StoreOp σ)) : (s.performAll ops).Charted := by
  induction ops generalizing s with
  | nil => exact charted
  | cons timed ops ih =>
      exact ih ((perform_ends filed timed.1 timed.2).charted charted)
        (perform_lawful filed timed.1 timed.2).filed

/-! ## Whole sequences -/

/-- Whatever was done with a store that was empty: after an order to fail, and until the next one,
as many accesses as were ordered fail for the store and no others; without any order none does.
Leave out what failed and the orders to fail, and the rest is answered as before and comes to the
same records and announcements.  A write that is granted announces one change, under its own key,
that tells whether there was a record before and whether there is one after; nothing else announces
or changes anything.  And to replay all changes leads to the keys of the records. -/
theorem only_granted_operations_leave_traces (ops : List (Instant × StoreOp σ)) :
    (∀ (ordered : Instant) (count : Nat) (calls : List (Instant × StoreOp σ)),
      (∀ call ∈ calls, call.2.ordersFailures = false) → ∀ (now : Instant) (op : StoreOp σ),
        ((({} : Store σ).performAll (ops ++ (ordered, .failNext count) :: calls)).perform now
            op).1.IsStoreFault ↔
          op.fallible = true ∧ (calls.countP fun call => call.2.fallible) < count) ∧
    ((∀ call ∈ ops, call.2.ordersFailures = false) → ∀ (now : Instant) (op : StoreOp σ),
      ¬ ((({} : Store σ).performAll ops).perform now op).1.IsStoreFault) ∧
    (∀ kept, (({} : Store σ).log ops).filter counts = kept →
      ({} : Store σ).log (kept.map Prod.fst) = kept ∧
      (({} : Store σ).performAll (kept.map Prod.fst)).records =
        (({} : Store σ).performAll ops).records ∧
      (({} : Store σ).performAll (kept.map Prod.fst)).announced =
        (({} : Store σ).performAll ops).announced) ∧
    (∀ (now : Instant) (op : StoreOp σ),
      Tells (({} : Store σ).performAll ops) op
        ((({} : Store σ).performAll ops).perform now op).1
        ((({} : Store σ).performAll ops).perform now op).2) ∧
    (({} : Store σ).performAll ops).Charted := by
  have filed (ops : List (Instant × StoreOp σ)) : (({} : Store σ).performAll ops).Filed :=
    (inOrder_empty.performAll ops).filed
  have append (more : List (Instant × StoreOp σ)) : ({} : Store σ).performAll (ops ++ more) =
      (({} : Store σ).performAll ops).performAll more := List.foldl_append
  refine ⟨fun ordered count calls obey now op => ?_, fun obey now op => ?_, ?_,
    fun now op => (perform_ends (filed ops) now op).tells, charted_empty.performAll filed_empty ops⟩
  · rw [(perform_ends (filed _) now op).isStoreFault_iff, append]
    have told : ((({} : Store σ).performAll ops).failNext count).Filed := filed ops
    have left := performAll_faults told obey
    change _ ∧ 0 < ((({} : Store σ).performAll ops).failNext count |>.performAll calls).faults ↔ _
    rw [left, Nat.sub_pos_iff_lt]
    rfl
  · rw [(perform_ends (filed ops) now op).isStoreFault_iff, performAll_faults filed_empty obey]
    rintro ⟨_, pending⟩
    exact Nat.not_lt_zero _ (Nat.lt_of_lt_of_le pending (Nat.sub_le _ _))
  · rintro kept rfl
    obtain ⟨same, ends⟩ := log_of_counts (s := ({} : Store σ)) filed_empty ops
    exact ⟨same, (congrArg records ends :), (congrArg announced ends :)⟩

open Scene in
/-- The sample is filed, and its deletion is asked for twice; the first time the store fails. -/
def troubledOps : List (Instant × StoreOp Plain) :=
  [(sampleInstant, .create guardedSample), (sampleInstant, .failNext 1),
    (sampleInstant, .requestDeletion sampleKey), (sampleInstant, .requestDeletion sampleKey)]

open Scene in
theorem only_granted_operations_leave_traces_of_sample :
    ((({} : Store Plain).performAll (troubledOps.take 2)).perform sampleInstant
      (.requestDeletion sampleKey)).1.IsStoreFault ∧
    ¬ ((({} : Store Plain).performAll (troubledOps.take 3)).perform sampleInstant
      (.requestDeletion sampleKey)).1.IsStoreFault ∧
    (({} : Store Plain).performAll requestedOps).records =
      (({} : Store Plain).performAll troubledOps).records ∧
    (({} : Store Plain).performAll troubledOps).announced =
      #[⟨.added, sampleKey⟩, ⟨.modified, sampleKey⟩] := by
  obtain ⟨fails, _⟩ := only_granted_operations_leave_traces (troubledOps.take 1)
  obtain ⟨_, _, leaves, _⟩ := only_granted_operations_leave_traces troubledOps
  obtain ⟨_, same, _⟩ := leaves _ rfl
  have ordered : troubledOps.take 2 = troubledOps.take 1 ++ [(sampleInstant, .failNext 1)] := rfl
  have asked : troubledOps.take 3 = troubledOps.take 1 ++
      [(sampleInstant, .failNext 1), (sampleInstant, .requestDeletion sampleKey)] := rfl
  refine ⟨?_, ?_, same, rfl⟩
  · rw [ordered, fails sampleInstant 1 [] (List.forall_mem_nil _)]
    exact ⟨rfl, Nat.zero_lt_one⟩
  · rw [asked, fails sampleInstant 1 _ (List.forall_mem_singleton.mpr rfl)]
    exact fun pending => absurd pending.2 (by decide)

end Store

end Steward
