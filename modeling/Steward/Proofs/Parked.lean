import Steward.Backend.Operations
import Steward.Proofs.Bench

/-!
# What lands after a delete

A delete that the simulated backend carries out at once leaves the resource missing, but not what an
earlier call left parked.  Until the next create, update or delete the resource only changes when
that lands, so a probe finds it missing, or in the condition that was parked then and has landed
since.
-/

namespace Steward

/-- What may happen at a backend: an operation at some instant, or the passing of time up to one. -/
inductive Occurrence where
  | operation (now : Nat) (op : BackendOp)
  | elapsed (now : Nat)

namespace Backend

/-! ## One resource -/

namespace Resource

/-- What becomes of a resource that is left to its completions: nothing, what was parked lands, or
it is forgotten. -/
inductive Moves (r : Resource) : Resource → Prop where
  | still {r' : Resource} (conditions : r'.conditions = r.conditions)
      (parked : r'.parked = r.parked) : Moves r r'
  | landed {r' : Resource} {condition : Condition} (was : r.parked = some condition)
      (conditions : r'.conditions = r.conditions ++ [condition]) (parked : r'.parked = none) :
      Moves r r'
  | forgotten : Moves r {}

theorem moves_refl (r : Resource) : Moves r r := .still rfl rfl

theorem moves_complete (r : Resource) : Moves r r.complete.2 := by
  cases parked : r.parked with
  | none =>
      rw [complete, parked]
      exact moves_refl r
  | some condition =>
      rw [complete, parked]
      exact .landed parked rfl rfl

theorem latest_of_conditions {r r' : Resource} (same : r'.conditions = r.conditions) :
    r'.latest = r.latest := by
  rw [latest, latest, same]

theorem latest_of_landed {r r' : Resource} {condition : Condition}
    (landed : r'.conditions = r.conditions ++ [condition]) : r'.latest = condition := by
  simp [latest, landed]

end Resource

variable {b : Backend} {id other : String}

theorem resource_set_of_ne (b : Backend) (ne : other ≠ id) (r : Resource) :
    (b.set other r).resource id = b.resource id := by
  rw [resource, set, Std.ExtTreeMap.getElem?_insert,
    if_neg (mt Std.LawfulEqCmp.compare_eq_iff_eq.mp ne)]
  rfl

theorem resource_complete_of_ne (b : Backend) (ne : other ≠ id) :
    (b.complete other).2.resource id = b.resource id := by
  rw [complete]
  split
  · rfl
  · exact b.resource_set_of_ne ne _

theorem resource_clearBehaviours_of_ne (b : Backend) (ne : other ≠ id) :
    (b.clearBehaviours other).resource id = b.resource id := by
  rw [clearBehaviours]
  split
  · rfl
  · exact b.resource_set_of_ne ne _

theorem resource_completeAll (b : Backend) (id : String) :
    b.completeAll.2.resource id = (b.resource id).complete.2 := by
  rw [completeAll, resource, resource, Std.ExtTreeMap.getElem?_map]
  cases b.resources[id]? <;> rfl

/-- Once what was parked has landed, nothing is left to land. -/
theorem Resource.complete_complete (r : Resource) : r.complete.2.complete.2 = r.complete.2 := by
  cases parked : r.parked with
  | none => simp only [complete, parked]
  | some condition => simp only [complete, parked]

theorem resource_foldl_complete (b : Backend) (id : String) (timers : List Completion) :
    (timers.foldl (fun b timer => (b.complete timer.id).2) b).resource id = b.resource id ∨
      (timers.foldl (fun b timer => (b.complete timer.id).2) b).resource id =
        (b.resource id).complete.2 := by
  induction timers generalizing b with
  | nil => exact .inl rfl
  | cons timer timers ih =>
      rw [List.foldl_cons]
      have rest := ih (b.complete timer.id).2
      by_cases own : timer.id = id
      · rw [own, resource_complete, Resource.complete_complete] at rest
        rw [own]
        exact .inr (or_self_iff.mp rest)
      · rw [resource_complete_of_ne b own] at rest
        exact rest

/-! ## What happens at a backend -/

def occur (b : Backend) : Occurrence → Backend
  | .operation now op => (b.carryOut now op).2
  | .elapsed now => b.fire now

def occurAll (b : Backend) (occurrences : List Occurrence) : Backend := occurrences.foldl occur b

/-- The resource is left to its completions: it is neither created nor updated nor deleted, and a
probe of it reports its latest condition. -/
def Spares (b : Backend) (id : String) : Occurrence → Prop
  | .operation _ (.call call other) =>
      other = id → call = .verify ∧ (b.resource id).select .verify = .verifyStandard
  | _ => True

/-- All along the resource is left to its completions. -/
def SparesAll (id : String) : Backend → List Occurrence → Prop
  | _, [] => True
  | b, occurrence :: occurrences =>
      b.Spares id occurrence ∧ SparesAll id (b.occur occurrence) occurrences

/-- A call concerns one resource, and perhaps a timer. -/
theorem receive_fst (b : Backend) (now : Nat) (id : String) (request : Request) :
    (b.receive now id request).1 = ((b.resource id).receive request).1 := by
  simp only [receive]
  split
  · split <;> rfl
  · rfl

theorem resource_receive (b : Backend) (now : Nat) (other id : String) (request : Request) :
    (b.receive now other request).2.resource id =
      (b.set other ((b.resource other).receive request).2).resource id := by
  simp only [receive]
  split
  · split <;> rfl
  · rfl

theorem resource_carryOut_of_ne (b : Backend) (now : Nat) (call : Call) (ne : other ≠ id) :
    (b.carryOut now (.call call other)).2.resource id = b.resource id := by
  cases call <;> exact (b.resource_receive now other id _).trans (b.resource_set_of_ne ne _)

/-- A probe that reports the latest condition leaves no trace but in the list of calls. -/
theorem resource_verify (b : Backend) (now : Nat)
    (standard : (b.resource id).select .verify = .verifyStandard) :
    (b.carryOut now (.call .verify id)).2.resource id =
      { b.resource id with requests := (b.resource id).requests ++ [.verify] } := by
  refine (b.resource_receive now id id .verify).trans ?_
  rw [resource_set, Resource.receive, standard]
  rfl

/-- A resource that is left to its completions moves in one of these ways. -/
theorem occur_moves (b : Backend) (id : String) {occurrence : Occurrence}
    (spares : b.Spares id occurrence) :
    (b.resource id).Moves ((b.occur occurrence).resource id) := by
  cases occurrence with
  | elapsed now =>
      rw [occur, fire]
      obtain same | landed := resource_foldl_complete
        { b with timers := (b.timers.partition fun timer => timer.due ≤ now).2 } id
        ((b.timers.partition fun timer => timer.due ≤ now).1.mergeSort fun s t => s.due ≤ t.due)
      · exact .still (congrArg Resource.conditions same) (congrArg Resource.parked same)
      · exact landed ▸ Resource.moves_complete (b.resource id)
  | operation now op =>
      rw [occur]
      cases op with
      | call call other =>
          by_cases own : other = id
          · obtain ⟨rfl, standard⟩ := spares own
            rw [own, b.resource_verify now standard]
            exact .still rfl rfl
          · rw [b.resource_carryOut_of_ne now call own]
            exact Resource.moves_refl _
      | behave other behaviour =>
          by_cases own : other = id
          · rw [own, carryOut, addBehaviour, resource_set]
            exact .still rfl rfl
          · rw [carryOut, addBehaviour, resource_set_of_ne b own]
            exact Resource.moves_refl _
      | clearBehaviours other =>
          rw [carryOut]
          by_cases own : other = id
          · rw [own, resource_clearBehaviours]
            exact .still rfl rfl
          · rw [resource_clearBehaviours_of_ne b own]
            exact Resource.moves_refl _
      | clear => exact .forgotten
      | complete other =>
          rw [carryOut]
          by_cases own : other = id
          · rw [own, resource_complete]
            exact Resource.moves_complete _
          · rw [resource_complete_of_ne b own]
            exact Resource.moves_refl _
      | completeAll =>
          rw [carryOut, resource_completeAll]
          exact Resource.moves_complete _
      | inspect => exact Resource.moves_refl _

/-! ## After a delete -/

variable {occurrences : List Occurrence} {condition : Condition}

/-- In the course of these occurrences this condition, which was parked for the resource, landed. -/
def Lands (id : String) (condition : Condition) (b : Backend) (occurrences : List Occurrence) :
    Prop :=
  ∃ early occurrence late, occurrences = early ++ occurrence :: late ∧
    ((b.occurAll early).resource id).parked = some condition ∧
    (((b.occurAll early).occur occurrence).resource id).conditions =
      ((b.occurAll early).resource id).conditions ++ [condition]

theorem Lands.later {occurrence : Occurrence}
    (lands : Lands id condition (b.occur occurrence) occurrences) :
    Lands id condition b (occurrence :: occurrences) := by
  obtain ⟨early, landing, late, rfl, parked, conditions⟩ := lands
  exact ⟨occurrence :: early, landing, late, rfl, parked, conditions⟩

/-- When nothing is parked, the resource stays in its condition unless it is forgotten. -/
theorem latest_of_unparked (spared : SparesAll id b occurrences)
    (unparked : (b.resource id).parked = none) :
    ((b.occurAll occurrences).resource id).latest = (b.resource id).latest ∨
      ((b.occurAll occurrences).resource id).latest = .missing := by
  induction occurrences generalizing b with
  | nil => exact .inl rfl
  | cons occurrence occurrences ih =>
      have moves := b.occur_moves id spared.1
      have rest := ih spared.2
      change ((occurAll (b.occur occurrence) occurrences).resource id).latest = _ ∨ _
      generalize next : (b.occur occurrence).resource id = r at moves rest
      cases moves with
      | still conditions parked =>
          rw [← Resource.latest_of_conditions conditions]
          exact rest (parked.trans unparked)
      | landed was => cases was.symm.trans unparked
      | forgotten => exact .inr ((rest rfl).elim (fun same => same) fun same => same)

/-- A resource that is missing stays so, unless what is parked lands. -/
theorem latest_of_missing {parked : Option Condition} (spared : SparesAll id b occurrences)
    (missing : (b.resource id).latest = .missing)
    (left : (b.resource id).parked = none ∨ (b.resource id).parked = parked) :
    ((b.occurAll occurrences).resource id).latest = .missing ∨
      ∃ condition, parked = some condition ∧ Lands id condition b occurrences ∧
        ((b.occurAll occurrences).resource id).latest = condition := by
  induction occurrences generalizing b with
  | nil => exact .inl missing
  | cons occurrence occurrences ih =>
      have moves := b.occur_moves id spared.1
      have rest := ih spared.2
      have settled := latest_of_unparked spared.2
      change ((occurAll (b.occur occurrence) occurrences).resource id).latest = _ ∨
        ∃ condition, _ ∧ _ ∧ ((occurAll (b.occur occurrence) occurrences).resource id).latest = _
      generalize next : (b.occur occurrence).resource id = r at moves rest settled
      cases moves with
      | still conditions same =>
          obtain gone | ⟨condition, was, lands, found⟩ := rest
            ((Resource.latest_of_conditions conditions).trans missing) (same ▸ left)
          · exact .inl gone
          · exact .inr ⟨condition, was, lands.later, found⟩
      | forgotten =>
          obtain gone | ⟨condition, was, lands, found⟩ := rest rfl (.inl rfl)
          · exact .inl gone
          · exact .inr ⟨condition, was, lands.later, found⟩
      | @landed _ condition was conditions unparked =>
          obtain stays | gone := settled unparked
          · refine .inr ⟨condition, ?_, ⟨[], occurrence, occurrences, rfl, was, ?_⟩, ?_⟩
            · exact (left.resolve_left (by rw [was]; exact Option.some_ne_none _)).symm.trans was
            · exact next ▸ conditions
            · exact stays.trans (Resource.latest_of_landed conditions)
          · exact .inl gone

/-- A delete that succeeds at once enters that the resource is missing, and leaves what is
parked. -/
theorem resource_of_deleted {now : Nat} (deleted : (b.delete now id).1 = .ok .succeeded) :
    ((b.delete now id).2.resource id).latest = .missing ∧
      ((b.delete now id).2.resource id).parked = (b.resource id).parked := by
  have after : (b.delete now id).2.resource id = ((b.resource id).receive .delete).2 :=
    (b.resource_receive now id id .delete).trans (b.resource_set id _)
  change (b.receive now id .delete).1.map _ = _ at deleted
  rw [receive_fst, Resource.receive] at deleted
  rw [after, Resource.receive]
  cases reaction : (b.resource id).select .delete with
  | deleteSync => exact ⟨Resource.latest_enter _ _, rfl⟩
  | _ =>
      rw [reaction] at deleted
      cases deleted

theorem verify_of_standard {now : Nat}
    (standard : (b.resource id).select .verify = .verifyStandard) :
    (b.verify now id).1 = .ok (b.resource id).latest := by
  change (b.receive now id .verify).1.map _ = _
  rw [receive_fst, Resource.receive, standard]
  rfl

/-- After a delete that succeeded at once, and as long as the resource is left to its completions, a
probe that reports the latest condition finds it missing, or in a condition that was parked when it
was deleted and has landed since. -/
theorem verify_after_delete (b : Backend) (id : String) (deletion now : Nat)
    (occurrences : List Occurrence)
    (deleted : (b.delete deletion id).1 = .ok .succeeded)
    (spared : SparesAll id (b.delete deletion id).2 occurrences)
    (standard : (((b.delete deletion id).2.occurAll occurrences).resource id).select .verify =
      .verifyStandard) :
    (((b.delete deletion id).2.occurAll occurrences).verify now id).1 = .ok .missing ∨
      ∃ condition, condition ≠ .missing ∧ (b.resource id).parked = some condition ∧
        Lands id condition (b.delete deletion id).2 occurrences ∧
        (((b.delete deletion id).2.occurAll occurrences).verify now id).1 = .ok condition := by
  obtain ⟨missing, left⟩ := resource_of_deleted deleted
  rw [verify_of_standard standard]
  obtain gone | ⟨condition, was, lands, found⟩ := latest_of_missing spared missing (.inr left)
  · exact .inl (congrArg _ gone)
  rw [found]
  by_cases same : condition = .missing
  · exact .inl (congrArg _ same)
  · exact .inr ⟨condition, same, was, lands, rfl⟩

/-- A resource whose deletes succeed at once is being created. -/
def hastyBackend : Backend :=
  ({} : Backend).occurAll
    [.operation 0 (.behave "vm-1" { reaction := .deleteSync }), .operation 0 (.call .create "vm-1")]

/-- The completions that follow a delete, with a probe among them. -/
def aftermath : List Occurrence :=
  [.operation 0 (.complete "vm-1"), .operation 0 (.call .verify "vm-1"), .operation 0 .completeAll]

/-- The create lands before the delete, and then there is nothing left to land. -/
theorem verify_after_delete_of_landedCreate :
    ((hastyBackend.complete "vm-1").2.verify 0 "vm-1").1 = .ok .ready ∧
    ((hastyBackend.complete "vm-1").2.delete 0 "vm-1").1 = .ok .succeeded ∧
    ((((hastyBackend.complete "vm-1").2.delete 0 "vm-1").2.occurAll aftermath).verify 0
      "vm-1").1 = .ok .missing := by
  refine ⟨rfl, rfl, ?_⟩
  obtain gone | ⟨condition, _, parked, _⟩ := verify_after_delete (hastyBackend.complete "vm-1").2
    "vm-1" 0 0 aftermath rfl ⟨trivial, fun _ => ⟨rfl, rfl⟩, trivial, trivial⟩ rfl
  · exact gone
  · cases parked

/-- The create lands after the delete, and the resource is there again. -/
theorem deleted_returns_of_lateCreate :
    (hastyBackend.delete 0 "vm-1").1 = .ok .succeeded ∧
    SparesAll "vm-1" (hastyBackend.delete 0 "vm-1").2 [.operation 0 (.complete "vm-1")] ∧
    (((hastyBackend.delete 0 "vm-1").2.occurAll [.operation 0 (.complete "vm-1")]).resource
      "vm-1").select .verify = .verifyStandard ∧
    (((hastyBackend.delete 0 "vm-1").2.occurAll [.operation 0 (.complete "vm-1")]).verify 0
      "vm-1").1 = .ok .ready :=
  ⟨rfl, ⟨trivial, trivial⟩, rfl, rfl⟩

end Backend

end Steward
