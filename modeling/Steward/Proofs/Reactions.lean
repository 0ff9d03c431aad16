import Steward.Proofs.Completion

/-!
# The last behaviour that covers a call decides it

The backend counts the calls of each kind that it received for a resource, and the behaviours of the
resource are tried from the last to the first: one that answers this kind of call, and whose window
holds the number of calls that came before, decides how the backend reacts.  Whichever it is, the
reaction is one to the kind of call that was made, so a call is never answered in the shape of
another.  A history says what happened at a backend since it was opened.
-/

namespace Steward.Backend

/-! ## Which reaction is chosen -/

namespace Behaviour

/-- The behaviour is for calls of this kind, and its window holds the next one. -/
def Applies (b : Behaviour) (request : Request) (prior : Nat) : Prop :=
  b.reaction.request = request ∧ b.covers prior = true

/-- How a call is reacted to that `prior` calls of its kind came before. -/
inductive Chooses (behaviours : List Behaviour) (request : Request) (prior : Nat) :
    Reaction → Prop where
  | overridden {before after : List Behaviour} {b : Behaviour}
      (listed : behaviours = before ++ b :: after) (applies : b.Applies request prior)
      (last : ∀ later ∈ after, ¬ later.Applies request prior) :
      Chooses behaviours request prior b.reaction
  | default (none : ∀ b ∈ behaviours, ¬ b.Applies request prior) :
      Chooses behaviours request prior (.default request)

variable {behaviours : List Behaviour} {request : Request} {prior : Nat} {reaction : Reaction}

theorem applies_iff {b : Behaviour} :
    (b.reaction.request == request && b.covers prior) = true ↔ b.Applies request prior := by
  rw [Bool.and_eq_true, beq_iff_eq, Applies]

theorem request_default (request : Request) : (Reaction.default request).request = request := by
  cases request <;> rfl

theorem select_chooses (behaviours : List Behaviour) (request : Request) (prior : Nat) :
    Chooses behaviours request prior (select behaviours request prior) := by
  rw [select]
  split
  case h_1 b found =>
    obtain ⟨applies, newer, older, reversed, none⟩ := List.find?_eq_some_iff_append.mp found
    have listed : behaviours = older.reverse ++ b :: newer.reverse := by
      rw [← List.reverse_reverse behaviours, reversed]
      simp
    refine .overridden listed (applies_iff.mp applies) fun later listed applies => ?_
    have refused := none later (List.mem_reverse.mp listed)
    rw [applies_iff.mpr applies] at refused
    cases refused
  case h_2 none =>
    refine .default fun b listed applies => ?_
    exact List.find?_eq_none.mp none b (List.mem_reverse.mpr listed) (applies_iff.mpr applies)

/-- A call is reacted to as its kind is. -/
theorem Chooses.request_eq (chooses : Chooses behaviours request prior reaction) :
    reaction.request = request := by
  cases chooses with
  | overridden _ applies => exact applies.1
  | default => exact request_default request

end Behaviour

/-! ## What a reaction does -/

/-- The resolution has the shape of an answer to this kind of call. -/
def Resolution.Answers : Resolution → Request → Prop
  | .apply _, .create | .apply _, .update | .delete _, .delete | .verify _, .verify => True
  | _, _ => False

namespace Resource

variable {r : Resource} {reaction : Reaction} {request : Request} {resolution : Resolution}

theorem react_answers (reacts : (r.react reaction).1 = .ok resolution) :
    resolution.Answers reaction.request := by
  cases reaction <;> cases reacts <;> trivial

/-- Nothing that is applied or deleted ends in an error of its own, and a probe finds an error only
where it stands last. -/
theorem react_ok (reacts : (r.react reaction).1 = .ok resolution) :
    resolution ≠ .apply .error ∧ resolution ≠ .delete .error ∧
      (resolution = .verify .error → reaction = .verifyStandard ∧ r.latest = .error) := by
  cases reaction with
  | verifyStandard =>
      cases reacts
      exact ⟨nofun, nofun, fun found => ⟨rfl, Resolution.verify.inj found⟩⟩
  | _ => cases reacts <;> exact ⟨nofun, nofun, nofun⟩

theorem react_keeps (r : Resource) (reaction : Reaction) :
    (r.react reaction).2.requests = r.requests ∧
      (r.react reaction).2.behaviours = r.behaviours ∧
      ((r.react reaction).2.conditions = r.conditions ∨
        ∃ condition, (r.react reaction).2.conditions = r.conditions ++ [condition]) := by
  cases reaction with
  | deleteFail | verifyStandard => exact ⟨rfl, rfl, .inl rfl⟩
  | _ => exact ⟨rfl, rfl, .inr ⟨_, rfl⟩⟩

theorem requests_complete (r : Resource) : r.complete.2.requests = r.requests := by
  rw [complete]
  split <;> rfl

theorem requests_receive (r : Resource) (request : Request) :
    (r.receive request).2.requests = r.requests ++ [request] :=
  (react_keeps _ (r.select request)).1

theorem behaviours_receive (r : Resource) (request : Request) :
    (r.receive request).2.behaviours = r.behaviours :=
  (react_keeps _ (r.select request)).2.1

end Resource

/-! ## What a history says of a resource -/

/-- The calls that a resource received since it was started, where `calls` came before. -/
def callsAfter (id : String) (calls : List Request) : Occurrence → List Request
  | .operation _ (.call call other) =>
      if other = id then calls ++ [Bench.request call] else calls
  | .operation _ .clear => []
  | _ => calls

def callsOf (id : String) (history : List Occurrence) : List Request :=
  history.foldl (callsAfter id) []

/-- The behaviours of a resource, where it had `behaviours` before. -/
def overridesAfter (id : String) (behaviours : List Behaviour) : Occurrence → List Behaviour
  | .operation _ (.behave other behaviour) =>
      if other = id then behaviours ++ [behaviour] else behaviours
  | .operation _ (.clearBehaviours other) => if other = id then [] else behaviours
  | .operation _ .clear => []
  | _ => behaviours

def overridesOf (id : String) (history : List Occurrence) : List Behaviour :=
  history.foldl (overridesAfter id) []

/-- The backend after a history. -/
def opened (completionDelay : Option Nat) (latency : Nat) (history : List Occurrence) : Backend :=
  ({ completionDelay, latency } : Backend).occurAll history

variable {b : Backend} {id other : String}

theorem resource_carryOut_call (b : Backend) (now : Nat) (call : Call) (id : String) :
    (b.carryOut now (.call call id)).2.resource id =
      ((b.resource id).receive (Bench.request call)).2 := by
  rw [carryOut_call, resource_receive, resource_set]

/-- What happens at a backend adds to the calls and behaviours of a resource as the history says. -/
theorem occur_account (b : Backend) (id : String) (occurrence : Occurrence) :
    ((b.occur occurrence).resource id).requests =
        callsAfter id (b.resource id).requests occurrence ∧
      ((b.occur occurrence).resource id).behaviours =
        overridesAfter id (b.resource id).behaviours occurrence := by
  cases occurrence with
  | elapsed now =>
      rw [occur, fire]
      obtain same | landed := resource_foldl_complete
        { b with timers := (b.timers.partition fun timer => timer.due ≤ now).2 } id
        ((b.timers.partition fun timer => timer.due ≤ now).1.mergeSort fun s t => s.due ≤ t.due)
      · exact ⟨congrArg Resource.requests same, congrArg Resource.behaviours same⟩
      · exact ⟨(congrArg Resource.requests landed).trans (Resource.requests_complete _),
          (congrArg Resource.behaviours landed).trans (Resource.behaviours_complete _)⟩
  | operation now op =>
      rw [occur]
      cases op with
      | call call other =>
          by_cases own : other = id
          · rw [own, resource_carryOut_call]
            simp only [callsAfter, overridesAfter, if_true]
            exact ⟨Resource.requests_receive _ _, Resource.behaviours_receive _ _⟩
          · rw [b.resource_carryOut_of_ne now call own]
            simp only [callsAfter, overridesAfter, if_neg own, and_self]
      | behave other behaviour =>
          rw [carryOut, addBehaviour]
          by_cases own : other = id
          · rw [own, resource_set]
            simp only [callsAfter, overridesAfter, if_true, and_self]
          · rw [resource_set_of_ne b own]
            simp only [callsAfter, overridesAfter, if_neg own, and_self]
      | clearBehaviours other =>
          rw [carryOut]
          by_cases own : other = id
          · rw [own, resource_clearBehaviours]
            simp only [callsAfter, overridesAfter, if_true, and_self]
          · rw [resource_clearBehaviours_of_ne b own]
            simp only [callsAfter, overridesAfter, if_neg own, and_self]
      | clear => exact ⟨rfl, rfl⟩
      | complete other =>
          rw [carryOut]
          by_cases own : other = id
          · rw [own, resource_complete]
            exact ⟨Resource.requests_complete _, Resource.behaviours_complete _⟩
          · rw [resource_complete_of_ne b own]
            exact ⟨rfl, rfl⟩
      | completeAll =>
          rw [carryOut, resource_completeAll]
          exact ⟨Resource.requests_complete _, Resource.behaviours_complete _⟩
      | inspect => exact ⟨rfl, rfl⟩

theorem occurAll_account (history : List Occurrence) (b : Backend) (id : String) :
    ((b.occurAll history).resource id).requests =
        history.foldl (callsAfter id) (b.resource id).requests ∧
      ((b.occurAll history).resource id).behaviours =
        history.foldl (overridesAfter id) (b.resource id).behaviours := by
  induction history generalizing b with
  | nil => exact ⟨rfl, rfl⟩
  | cons occurrence history ih =>
      obtain ⟨requests, behaviours⟩ := b.occur_account id occurrence
      rw [List.foldl_cons, List.foldl_cons, ← requests, ← behaviours]
      exact ih (b.occur occurrence)

theorem opened_account (completionDelay : Option Nat) (latency : Nat) (history : List Occurrence)
    (id : String) :
    ((opened completionDelay latency history).resource id).requests = callsOf id history ∧
      ((opened completionDelay latency history).resource id).behaviours =
        overridesOf id history :=
  occurAll_account history _ id

/-! ## Calls and their answers -/

/-- What is answered was resolved to, in the shape that the call has. -/
theorem exists_of_receive {α : Type} {now : Nat} {request : Request} {shape : Resolution → α}
    {answer : α} (answers : (b.receive now id request).1.map shape = .ok answer) :
    ∃ resolution, shape resolution = answer ∧ resolution.Answers request ∧
      resolution ≠ .apply .error ∧ resolution ≠ .delete .error ∧
      (resolution = .verify .error → (b.resource id).latest = .error) := by
  have chosen := Behaviour.select_chooses (b.resource id).behaviours request
    ((b.resource id).count request)
  rw [receive_fst, Resource.receive] at answers
  cases reacts : (Resource.react { b.resource id with requests := _ }
    ((b.resource id).select request)).1 with
  | error message =>
      rw [reacts] at answers
      cases answers
  | ok resolution =>
      rw [reacts] at answers
      obtain ⟨applied, deleted, verified⟩ := Resource.react_ok reacts
      refine ⟨resolution, Except.ok.inj answers, ?_, applied, deleted,
        fun found => (verified found).2⟩
      rw [← chosen.request_eq]
      exact Resource.react_answers reacts

/-- What is answered to a create or an update was applied. -/
theorem exists_applied {α : Type} {now : Nat} {request : Request} {shape : Resolution → α}
    {answer : α} (applies : request = .create ∨ request = .update)
    (answers : (b.receive now id request).1.map shape = .ok answer) :
    ∃ result, result ≠ .error ∧ shape (.apply result) = answer := by
  obtain ⟨resolution, same, fits, applied, _⟩ := exists_of_receive answers
  cases resolution with
  | apply result => exact ⟨result, fun failed => applied (congrArg _ failed), same⟩
  | delete | verify => obtain rfl | rfl := applies <;> exact fits.elim

theorem create_ne_error (b : Backend) (now : Nat) (id : String) :
    (b.create now id).1 ≠ .ok .error := by
  intro answer
  obtain ⟨result, fine, same⟩ := exists_applied (.inl rfl) answer
  exact fine same

theorem update_ne_error (b : Backend) (now : Nat) (id : String) :
    (b.update now id).1 ≠ .ok .error := by
  intro answer
  obtain ⟨result, fine, same⟩ := exists_applied (.inr rfl) answer
  exact fine same

theorem delete_ne_error (b : Backend) (now : Nat) (id : String) :
    (b.delete now id).1 ≠ .ok .error := by
  intro answer
  obtain ⟨resolution, same, fits, _, deleted, _⟩ := exists_of_receive answer
  cases resolution with
  | delete result => exact deleted (congrArg _ same)
  | apply | verify => exact fits

theorem latest_of_verify {now : Nat} (answer : (b.verify now id).1 = .ok .error) :
    (b.resource id).latest = .error := by
  obtain ⟨resolution, same, fits, _, _, verified⟩ := exists_of_receive answer
  cases resolution with
  | verify found => exact verified (congrArg _ same)
  | apply | delete => exact fits.elim

/-- The backend `b` has `reaction` to a call for a resource with these behaviours, which received
`calls` before, and is `after` then. -/
structure Reacts (b : Backend) (now : Nat) (id : String) (request : Request)
    (behaviours : List Behaviour) (calls : List Request) (reaction : Reaction) (after : Backend) :
    Prop where
  chosen : Behaviour.Chooses behaviours request (calls.count request) reaction
  fits : reaction.request = request
  runs : ((b.receive now id request).1, after.resource id) =
    Resource.react { b.resource id with requests := calls ++ [request] } reaction
  answers : ∀ resolution, (b.receive now id request).1 = .ok resolution →
    resolution.Answers request
  noted : (after.resource id).requests = calls ++ [request]
  entered : (after.resource id).conditions = (b.resource id).conditions ∨
    ∃ condition, (after.resource id).conditions = (b.resource id).conditions ++ [condition]
  apart : ∀ other, id ≠ other → after.resource other = b.resource other

/-- After any history a call of a kind is reacted to as the last of the resource's behaviours says
that is for such calls and holds the number of those that came before, and in the usual way if there
is none.  The reaction is one to that kind of call, and what it resolves to has the shape of the
answer; so no call ends in the error that stands for another shape, and a probe reports an error
only where the resource is in one.  The call is noted, one condition at most is entered, and no
other resource is touched. -/
theorem last_behaviour_decides (completionDelay : Option Nat) (latency : Nat)
    (history : List Occurrence) (id : String) (now : Nat) :
    (∀ call, ∃ reaction,
      (opened completionDelay latency history).Reacts now id (Bench.request call)
        (overridesOf id history) (callsOf id history) reaction
        ((opened completionDelay latency history).carryOut now (.call call id)).2) ∧
    ((opened completionDelay latency history).create now id).1 ≠ .ok .error ∧
    ((opened completionDelay latency history).update now id).1 ≠ .ok .error ∧
    ((opened completionDelay latency history).delete now id).1 ≠ .ok .error ∧
    (((opened completionDelay latency history).verify now id).1 = .ok .error →
      ((opened completionDelay latency history).resource id).latest = .error) := by
  refine ⟨fun call => ?_, create_ne_error _ now id, update_ne_error _ now id,
    delete_ne_error _ now id, latest_of_verify⟩
  obtain ⟨requests, behaviours⟩ := opened_account completionDelay latency history id
  generalize opened completionDelay latency history = b at requests behaviours
  have chosen := Behaviour.select_chooses (b.resource id).behaviours (Bench.request call)
    ((b.resource id).count (Bench.request call))
  refine ⟨(b.resource id).select (Bench.request call), ?_⟩
  exact {
    chosen := by
      rw [← behaviours, ← requests]
      exact chosen
    fits := chosen.request_eq
    runs := by
      rw [receive_fst, resource_carryOut_call, ← requests]
      rfl
    answers := by
      intro resolution resolves
      have answered : (b.receive now id (Bench.request call)).1.map (fun r => r) =
          .ok resolution := by
        rw [resolves]
        rfl
      obtain ⟨_, rfl, fits, _⟩ := exists_of_receive answered
      exact fits
    noted := by
      rw [resource_carryOut_call, Resource.requests_receive, requests]
    entered := by
      rw [resource_carryOut_call]
      exact (Resource.react_keeps _ _).2.2
    apart := fun other ne => b.resource_carryOut_of_ne now call ne }

end Steward.Backend
