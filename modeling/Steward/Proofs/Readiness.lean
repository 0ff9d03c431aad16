import Mathlib.Logic.Function.Basic
import Steward.Proofs.Store
import Steward.Reference

/-!
# The first reference that is not ready decides

The references of a record are looked up one after the other, the owner first, each by a reader of
its own.  A look-up may change the world, so it matters which of them are made: all of them up to the
first that fails, finds nothing, or finds a status that is not ready, and none behind it.  In front of
stores this means that a pending failure is used up only by a look-up that is reached, and that this
one then decides.
-/

namespace Steward.Readiness

/-- A reader of statuses in a world `ω`. -/
abbrev StatusReader (ω : Type) : Type := Key → StateM ω (Except Fault (Option Status))

/-- A reference, and the reader that looks its status up. -/
structure Inquiry (ω : Type) where
  reference : Reference
  reader : StatusReader ω

/-- What belongs to the owner stands in front of what belongs to the dependencies. -/
def inOrder {α : Type} (owner : Option α) (dependencies : List α) : List (Role × α) :=
  (owner.toList.map fun a => (.owner, a)) ++ (dependencies.map fun a => (.dependency, a))

/-- The references of a record, each with its reader. -/
structure Inquiries (ω : Type) where
  owner : Option (Inquiry ω) := none
  dependencies : List (Inquiry ω) := []

variable {ω : Type}

/-- Readers that are asked in turn, for one status each. -/
def inTurn : StatusReader (ω × List (StatusReader ω))
  | _, (w, []) => (.ok none, w, [])
  | key, (w, reader :: later) =>
      let (found, w) := reader key w
      (found, w, later)

def Inquiry.look (q : Inquiry ω) (w : ω) : Except Fault (Option Status) × ω :=
  q.reader q.reference.key w

def readers (entries : List (Role × Inquiry ω)) : List (StatusReader ω) :=
  entries.map fun entry => entry.2.reader

/-- Checks references, each of which its own reader looks up.  At the end there are the world and
the readers that were not asked. -/
def checkEach (entries : List (Role × Inquiry ω)) (w : ω) :
    Except Fault Readiness × ω × List (StatusReader ω) :=
  check (m := StateM _) inTurn (entries.map fun entry => (entry.1, entry.2.reference))
    (w, readers entries)

namespace Inquiries

def all (qs : Inquiries ω) : List (Role × Inquiry ω) := inOrder qs.owner qs.dependencies

def references (qs : Inquiries ω) : References where
  owner := qs.owner.map Inquiry.reference
  dependencies := qs.dependencies.map Inquiry.reference

def check (qs : Inquiries ω) (w : ω) : Except Fault Readiness × ω × List (StatusReader ω) :=
  Readiness.check (m := StateM _) inTurn qs.references.all (w, readers qs.all)

/-- References that one reader looks up. -/
def ofReader (reader : StatusReader ω) (refs : References) : Inquiries ω where
  owner := refs.owner.map fun ref => ⟨ref, reader⟩
  dependencies := refs.dependencies.map fun ref => ⟨ref, reader⟩

end Inquiries

/-- The references are looked up one after the other, and all are found ready.  The first look-up is
made in the world `w`, and the last one leaves the world `w'`. -/
inductive Passes : List (Role × Inquiry ω) → ω → ω → Prop where
  | none (w : ω) : Passes [] w w
  | more {role : Role} {q : Inquiry ω} {rest : List (Role × Inquiry ω)} {w w' : ω}
      {status : Status} (found : (q.look w).1 = .ok (some status))
      (ready : q.reference.isReady status = true) (passes : Passes rest (q.look w).2 w') :
      Passes ((role, q) :: rest) w w'

/-- A look-up of the reference that ends the check, and what the check comes to. -/
inductive Stops (role : Role) (ref : Reference) :
    Except Fault (Option Status) → Except Fault Readiness → Prop where
  | failed (fault : Fault) : Stops role ref (.error fault) (.error fault)
  | missing : Stops role ref (.ok none) (.ok (.missing role ref.key))
  | notReady {status : Status} (unready : ref.isReady status = false) :
      Stops role ref (.ok (some status)) (.ok (.notReady role ref.key))

variable {entries before after : List (Role × Inquiry ω)} {role : Role} {q : Inquiry ω}
variable {w w' : ω} {result : Except Fault Readiness}

/-! ## One look-up after the other -/

theorem Stops.ne_ready {ref : Reference} {found : Except Fault (Option Status)}
    (stops : Stops role ref found result) : result ≠ .ok .ready := by
  cases stops <;> exact nofun

/-- A look-up finds the reference ready or stops the check. -/
theorem ready_or_stops (role : Role) (ref : Reference) (found : Except Fault (Option Status)) :
    (∃ status, found = .ok (some status) ∧ ref.isReady status = true) ∨
      ∃ result, Stops role ref found result := by
  match found with
  | .error fault => exact .inr ⟨_, .failed fault⟩
  | .ok none => exact .inr ⟨_, .missing⟩
  | .ok (some status) =>
      cases ready : ref.isReady status with
      | true => exact .inl ⟨status, rfl, ready⟩
      | false => exact .inr ⟨_, .notReady ready⟩

section Reader

variable {reader : StatusReader ω} {ref : Reference} {rest : List (Role × Reference)}

theorem check_cons (reader : StatusReader ω) (role : Role) (ref : Reference)
    (rest : List (Role × Reference)) (w : ω) :
    check (m := StateM ω) reader ((role, ref) :: rest) w =
      match reader ref.key w with
      | (.error fault, w) => (.error fault, w)
      | (.ok found, w) =>
          match ofStatus role ref found with
          | some readiness => (.ok readiness, w)
          | none => check (m := StateM ω) reader rest w := by
  rw [check]
  simp only [bind, StateT.bind]
  obtain ⟨found, w⟩ := reader ref.key w
  cases found with
  | error fault => rfl
  | ok found =>
      dsimp only
      cases ofStatus role ref found <;> rfl

theorem check_of_ready {status : Status} (found : (reader ref.key w).1 = .ok (some status))
    (ready : ref.isReady status = true) :
    check (m := StateM ω) reader ((role, ref) :: rest) w =
      check (m := StateM ω) reader rest (reader ref.key w).2 := by
  rw [check_cons]
  generalize reader ref.key w = looked at found ⊢
  obtain ⟨answer, after⟩ := looked
  obtain rfl : answer = _ := found
  simp only [ofStatus, if_pos ready]

theorem check_of_stops (stops : Stops role ref (reader ref.key w).1 result) :
    check (m := StateM ω) reader ((role, ref) :: rest) w = (result, (reader ref.key w).2) := by
  rw [check_cons]
  generalize reader ref.key w = looked at stops ⊢
  obtain ⟨answer, after⟩ := looked
  change Stops role ref answer result at stops
  cases stops with
  | failed | missing => rfl
  | notReady unready => simp only [ofStatus, unready, Bool.false_eq_true, if_false]

end Reader

theorem checkEach_of_ready {status : Status} (found : (q.look w).1 = .ok (some status))
    (ready : q.reference.isReady status = true) :
    checkEach ((role, q) :: after) w = checkEach after (q.look w).2 := by
  have answered : (inTurn q.reference.key (w, readers ((role, q) :: after))).1 =
      .ok (some status) := found
  exact check_of_ready answered ready

theorem checkEach_of_stops (stops : Stops role q.reference (q.look w).1 result) :
    checkEach ((role, q) :: after) w = (result, (q.look w).2, readers after) := by
  have answered : Stops role q.reference
      (inTurn q.reference.key (w, readers ((role, q) :: after))).1 result := stops
  exact check_of_stops answered

theorem checkEach_of_passes (passes : Passes before w w') :
    checkEach (before ++ after) w = checkEach after w' := by
  induction passes with
  | none => rfl
  | more found ready _ ih =>
      rw [List.cons_append, checkEach_of_ready found ready]
      exact ih

theorem Passes.ready (passes : Passes entries w w') :
    checkEach entries w = (.ok .ready, w', []) := by
  have checked : checkEach (entries ++ []) w = checkEach [] w' := checkEach_of_passes passes
  rw [List.append_nil] at checked
  exact checked

/-- All references are found ready, or there is a first one that stops the check. -/
theorem exists_first (entries : List (Role × Inquiry ω)) (w : ω) :
    (∃ w', Passes entries w w') ∨
    ∃ before role q after w' result, entries = before ++ (role, q) :: after ∧
      Passes before w w' ∧ Stops role q.reference (q.look w').1 result := by
  induction entries generalizing w with
  | nil => exact .inl ⟨w, .none w⟩
  | cons entry rest ih =>
      obtain ⟨role, q⟩ := entry
      obtain ⟨status, found, ready⟩ | ⟨result, stops⟩ :=
        ready_or_stops role q.reference (q.look w).1
      · obtain ⟨w', passes⟩ | ⟨before, other, p, after, w', result, rfl, passes, stops⟩ :=
          ih (q.look w).2
        · exact .inl ⟨w', .more found ready passes⟩
        · exact .inr ⟨(role, q) :: before, other, p, after, w', result, rfl,
            .more found ready passes, stops⟩
      · exact .inr ⟨[], role, q, rest, w, result, rfl, .none w, stops⟩

/-- How a check ends, and which look-ups it makes. -/
theorem checkEach_cases (entries : List (Role × Inquiry ω)) (w : ω) :
    (∃ w', Passes entries w w' ∧ checkEach entries w = (.ok .ready, w', [])) ∨
    ∃ before role q after w' result, entries = before ++ (role, q) :: after ∧
      Passes before w w' ∧ Stops role q.reference (q.look w').1 result ∧
      checkEach entries w = (result, (q.look w').2, readers after) := by
  obtain ⟨w', passes⟩ | ⟨before, role, q, after, w', result, rfl, passes, stops⟩ :=
    exists_first entries w
  · exact .inl ⟨w', passes, passes.ready⟩
  · refine .inr ⟨before, role, q, after, w', result, rfl, passes, stops, ?_⟩
    rw [checkEach_of_passes passes, checkEach_of_stops stops]

/-! ## References with readers -/

theorem Inquiries.references_all (qs : Inquiries ω) :
    qs.references.all = qs.all.map fun entry => (entry.1, entry.2.reference) := by
  rw [References.all, all, inOrder, List.map_append]
  cases owner : qs.owner <;> simp [references, owner]

theorem Inquiries.check_eq (qs : Inquiries ω) (w : ω) : qs.check w = checkEach qs.all w := by
  rw [check, references_all, checkEach]

/-- When all references have the same reader, it is the reader of the check. -/
theorem check_eq_checkEach (reader : StatusReader ω) (refs : List (Role × Reference)) (w : ω) :
    check (m := StateM ω) reader refs w =
      ((checkEach (refs.map fun entry => (entry.1, ⟨entry.2, reader⟩)) w).1,
        (checkEach (refs.map fun entry => (entry.1, ⟨entry.2, reader⟩)) w).2.1) := by
  induction refs generalizing w with
  | nil => rfl
  | cons entry rest ih =>
      obtain ⟨role, ref⟩ := entry
      rw [List.map_cons]
      obtain ⟨status, found, ready⟩ | ⟨result, stops⟩ :=
        ready_or_stops role ref (reader ref.key w).1
      · rw [check_of_ready found ready, checkEach_of_ready (q := ⟨ref, reader⟩) found ready]
        exact ih (reader ref.key w).2
      · rw [check_of_stops stops, checkEach_of_stops (q := ⟨ref, reader⟩) stops]
        rfl

theorem Inquiries.all_ofReader (reader : StatusReader ω) (refs : References) :
    (ofReader reader refs).all = refs.all.map fun entry => (entry.1, ⟨entry.2, reader⟩) := by
  rw [References.all, all, inOrder, List.map_append]
  cases owner : refs.owner <;> simp [ofReader, owner]

/-! ## Stores as readers -/

section Stores

variable {ι : Type} [DecidableEq ι] {σ : ι → Type}

/-- One of several stores as a reader. -/
def fromStore (i : ι) : StatusReader ((i : ι) → Store (σ i)) := fun key stores =>
  let (found, s) := (stores i).readStatus key
  (found, Function.update stores i s)

/-- References each of which is looked up in one of several stores. -/
def Inquiries.ofStores (owner : Option (Reference × ι)) (dependencies : List (Reference × ι)) :
    Inquiries ((i : ι) → Store (σ i)) where
  owner := owner.map fun (ref, i) => ⟨ref, fromStore i⟩
  dependencies := dependencies.map fun (ref, i) => ⟨ref, fromStore i⟩

def shelved (entries : List (Role × Reference × ι)) :
    List (Role × Inquiry ((i : ι) → Store (σ i))) :=
  entries.map fun (role, ref, i) => (role, ⟨ref, fromStore i⟩)

theorem Inquiries.all_ofStores (owner : Option (Reference × ι))
    (dependencies : List (Reference × ι)) :
    (ofStores (σ := σ) owner dependencies).all = shelved (inOrder owner dependencies) := by
  rw [all, inOrder, inOrder, shelved, List.map_append]
  cases owner <;> simp [ofStores]

variable {stores stores' : (i : ι) → Store (σ i)} {ref : Reference} {i : ι}

/-- A look-up in a store without pending failures leaves the stores as they are. -/
theorem look_of_ready (ready : (stores i).faults = 0) :
    Inquiry.look ⟨ref, fromStore i⟩ stores =
      (.ok ((stores i).records[ref.key]?.map Record.status), stores) := by
  have read : (stores i).readStatus ref.key =
      (.ok ((stores i).records[ref.key]?.map Record.status), stores i) := by
    rw [Store.readStatus, Store.guarded, ready]
  change fromStore i ref.key stores = _
  rw [fromStore, read]
  dsimp only
  rw [Function.update_eq_self]

/-- A pending failure comes before the look-up, and is used up by it. -/
theorem look_of_fault (pending : (stores i).faults ≠ 0) :
    Inquiry.look ⟨ref, fromStore i⟩ stores =
      (.error (.store "read_status" "injected store fault"),
        Function.update stores i { stores i with faults := (stores i).faults - 1 }) := by
  obtain ⟨n, faults⟩ := Nat.exists_eq_succ_of_ne_zero pending
  change fromStore i ref.key stores = _
  rw [fromStore, Store.readStatus, Store.guarded, faults]
  rfl

/-- Look-ups that find a status have met no pending failure, and leave the stores as they are. -/
theorem Passes.of_stores {entries : List (Role × Reference × ι)}
    (passes : Passes (shelved entries) stores stores') :
    stores' = stores ∧ ∀ entry ∈ entries, (stores entry.2.2).faults = 0 := by
  induction entries with
  | nil =>
      cases passes
      exact ⟨rfl, List.forall_mem_nil _⟩
  | cons entry rest ih =>
      obtain ⟨role, ref, i⟩ := entry
      cases passes with
      | more found ready passes =>
          by_cases none : (stores i).faults = 0
          · rw [look_of_ready none] at passes
            obtain ⟨same, others⟩ := ih passes
            exact ⟨same, List.forall_mem_cons.mpr ⟨none, others⟩⟩
          · rw [look_of_fault none] at found
            cases found

theorem exists_shelved {entries : List (Role × Reference × ι)} {role : Role}
    {before after : List (Role × Inquiry ((i : ι) → Store (σ i)))}
    {q : Inquiry ((i : ι) → Store (σ i))}
    (split : shelved entries = before ++ (role, q) :: after) :
    ∃ early ref i late, entries = early ++ (role, ref, i) :: late ∧ before = shelved early ∧
      q = ⟨ref, fromStore i⟩ ∧ after = shelved late := by
  obtain ⟨early, rest, rfl, rfl, rest_eq⟩ := List.map_eq_append_iff.mp split
  obtain ⟨⟨_, ref, i⟩, late, rfl, same, rfl⟩ := List.map_eq_cons_iff.mp rest_eq
  cases same
  exact ⟨early, ref, i, late, rfl, rfl, rfl, rfl⟩

/-- In front of stores a check changes nothing, or it ends at the first reference whose store has a
failure pending, and uses up that failure. -/
theorem checkEach_shelved (entries : List (Role × Reference × ι))
    (stores : (i : ι) → Store (σ i)) :
    ((checkEach (shelved entries) stores).2.1 = stores ∧
      ∀ fault, (checkEach (shelved entries) stores).1 ≠ .error fault) ∨
    ∃ before role ref i after, entries = before ++ (role, ref, i) :: after ∧
      (∀ entry ∈ before, (stores entry.2.2).faults = 0) ∧ (stores i).faults ≠ 0 ∧
      checkEach (shelved entries) stores =
        (.error (.store "read_status" "injected store fault"),
          Function.update stores i { stores i with faults := (stores i).faults - 1 },
          readers (shelved after)) := by
  obtain ⟨stores', passes, checked⟩ |
    ⟨before, role, q, after, stores', result, split, passes, stops, checked⟩ :=
    checkEach_cases (shelved entries) stores
  · rw [checked]
    exact .inl ⟨passes.of_stores.1, fun fault => nofun⟩
  obtain ⟨early, ref, i, late, rfl, rfl, rfl, rfl⟩ := exists_shelved split
  obtain ⟨rfl, quiet⟩ := passes.of_stores
  by_cases none : (stores' i).faults = 0
  · rw [look_of_ready none] at stops checked
    rw [checked]
    refine .inl ⟨rfl, fun fault same => ?_⟩
    obtain rfl : result = .error fault := same
    generalize (stores' i).records[ref.key]?.map Record.status = found at stops
    cases stops
  · rw [look_of_fault none] at stops checked
    cases stops
    exact .inr ⟨early, role, ref, i, late, rfl, quiet, none, checked⟩

end Stores

/-! ## The check -/

/-- The references are looked up in order, owner first, and the record is ready exactly if each
look-up finds a status that is ready.  The first that does not decides: a fault is handed on, and
otherwise the reference is named with its role.  The readers behind it are not asked.  In front of
stores this leaves everything as it is but for one pending failure, if the check ends with it.  When
there is one reader for all references, this is the check with that reader. -/
theorem first_unready_decides (qs : Inquiries ω) (w : ω) {ι : Type} [DecidableEq ι] {σ : ι → Type}
    (owner : Option (Reference × ι)) (dependencies : List (Reference × ι))
    (stores : (i : ι) → Store (σ i)) :
    ((qs.check w).1 = .ok .ready ↔ ∃ w', Passes qs.all w w') ∧
    ((∃ w', Passes qs.all w w' ∧ qs.check w = (.ok .ready, w', [])) ∨
      ∃ before role q after w' result, qs.all = before ++ (role, q) :: after ∧
        Passes before w w' ∧ Stops role q.reference (q.look w').1 result ∧
        qs.check w = (result, (q.look w').2, readers after)) ∧
    ((((Inquiries.ofStores owner dependencies).check stores).2.1 = stores ∧
        ∀ fault, ((Inquiries.ofStores owner dependencies).check stores).1 ≠ .error fault) ∨
      ∃ before role ref i after, inOrder owner dependencies = before ++ (role, ref, i) :: after ∧
        (∀ entry ∈ before, (stores entry.2.2).faults = 0) ∧ (stores i).faults ≠ 0 ∧
        (Inquiries.ofStores owner dependencies).check stores =
          (.error (.store "read_status" "injected store fault"),
            Function.update stores i { stores i with faults := (stores i).faults - 1 },
            readers (shelved after))) ∧
    ∀ (reader : StatusReader ω) (refs : References),
      check (m := StateM ω) reader refs.all w =
        (((Inquiries.ofReader reader refs).check w).1,
          ((Inquiries.ofReader reader refs).check w).2.1) := by
  refine ⟨⟨fun ready => ?_, fun ⟨w', passes⟩ => ?_⟩, ?_, ?_, fun reader refs => ?_⟩
  · rw [qs.check_eq] at ready
    obtain ⟨w', passes, _⟩ | ⟨_, _, _, _, _, _, _, _, stops, checked⟩ := checkEach_cases qs.all w
    · exact ⟨w', passes⟩
    · rw [checked] at ready
      exact absurd ready stops.ne_ready
  · rw [qs.check_eq, passes.ready]
  · rw [qs.check_eq]
    exact checkEach_cases qs.all w
  · rw [Inquiries.check_eq, Inquiries.all_ofStores]
    exact checkEach_shelved (inOrder owner dependencies) stores
  · rw [Inquiries.check_eq, Inquiries.all_ofReader]
    exact check_eq_checkEach reader refs.all w

end Steward.Readiness
