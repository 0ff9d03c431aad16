import Std.Data.ExtTreeMap
import Steward.Backend.Behaviour
import Steward.Manager

/-!
# The simulated backend

An external system in miniature.  For every resource it keeps the conditions the resource went
through, the calls that were made for it, and at most one parked condition: the end of a call that
was accepted and is still under way.  A parked condition lands when it is completed by hand, or, in a
backend that completes on its own, when the timer of some accepted call on the resource runs out.
-/

namespace Steward

namespace Backend

/-- What the backend knows about one resource. -/
structure Resource where
  conditions : List Condition := []
  requests : List Request := []
  behaviours : List Behaviour := []
  parked : Option Condition := none
  deriving DecidableEq, Repr

/-- What a call resolves to, before it takes the shape of an answer. -/
inductive Resolution where
  | apply (result : ApplyResult)
  | delete (result : DeleteResult)
  | verify (found : Condition)
  deriving DecidableEq, Repr

namespace Resource

def count (r : Resource) (request : Request) : Nat := r.requests.count request

/-- How the resource answers its next call of a kind. -/
def select (r : Resource) (request : Request) : Reaction :=
  Behaviour.select r.behaviours request (r.count request)

/-- The latest condition; a resource that went through none is missing. -/
def latest (r : Resource) : Condition := r.conditions.getLast?.getD .missing

def enter (r : Resource) (condition : Condition) : Resource :=
  { r with conditions := r.conditions ++ [condition] }

/-- Enters an interim condition and parks the final one in place of any parked before. -/
def park (r : Resource) (interim final : Condition) : Resource :=
  { r.enter interim with parked := some final }

/-- Lands the parked condition, if there is one. -/
def complete (r : Resource) : Bool × Resource :=
  match r.parked with
  | none => (false, r)
  | some condition => (true, { r.enter condition with parked := none })

def react (r : Resource) : Reaction → Except String Resolution × Resource
  | .createAsync | .updateAsync =>
      (.ok (.apply .awaitingVerification), r.park .inProgress .ready)
  | .createCompleteFail => (.ok (.apply .awaitingVerification), r.park .inProgress .error)
  | .createSync | .updateSync => (.ok (.apply .succeeded), r.enter .ready)
  | .createFail => (.error "error creating resource", r.enter .error)
  | .updateFail => (.error "error updating resource", r.enter .error)
  | .deleteAsync => (.ok (.delete .awaitingVerification), r.park .deleting .missing)
  | .deleteSync => (.ok (.delete .succeeded), r.enter .missing)
  | .deleteFail => (.error "error deleting resource", r)
  | .verifyStandard => (.ok (.verify r.latest), r)
  | .verifyFail => (.error "failed to verify resource", r.enter .error)
  | .verifyNeedsUpdate => (.ok (.verify .updateRequired), r.enter .updateRequired)

/-- Notes a call and reacts to it. -/
def receive (r : Resource) (request : Request) : Except String Resolution × Resource :=
  { r with requests := r.requests ++ [request] }.react (r.select request)

end Resource

end Backend

/-- A timer that completes a resource. -/
structure Completion where
  due : Nat
  id : String
  deriving DecidableEq, Repr

structure Backend where
  resources : Std.ExtTreeMap String Backend.Resource compare := ∅
  /-- How long an accepted call takes to land on its own; without it, it never does. -/
  completionDelay : Option Nat := none
  /-- How long the backend takes to answer. -/
  latency : Nat := 0
  /-- The running timers, in the order in which they were set. -/
  timers : List Completion := []

namespace Backend

def resource (b : Backend) (id : String) : Resource := b.resources[id]?.getD {}

def set (b : Backend) (id : String) (r : Resource) : Backend :=
  { b with resources := b.resources.insert id r }

def addBehaviour (b : Backend) (id : String) (behaviour : Behaviour) : Backend :=
  let r := b.resource id
  b.set id { r with behaviours := r.behaviours ++ [behaviour] }

def clearBehaviours (b : Backend) (id : String) : Backend :=
  match b.resources[id]? with
  | none => b
  | some r => b.set id { r with behaviours := [] }

/-- Forgets every resource; timers that are running stay. -/
def clear (b : Backend) : Backend := { b with resources := ∅ }

/-- Lands the parked condition of a resource; says whether there was one. -/
def complete (b : Backend) (id : String) : Bool × Backend :=
  match b.resources[id]? with
  | none => (false, b)
  | some r =>
      let (landed, r) := r.complete
      (landed, b.set id r)

/-- Lands every parked condition; says how many there were. -/
def completeAll (b : Backend) : Nat × Backend :=
  ((b.resources.values.filter fun r => r.parked.isSome).length,
    { b with resources := b.resources.map fun _ r => r.complete.2 })

/-- Answers a call that arrives at the instant `now`. -/
def receive (b : Backend) (now : Nat) (id : String) (request : Request) :
    Except String Resolution × Backend :=
  let r := b.resource id
  let (resolution, after) := r.receive request
  let b := b.set id after
  match b.completionDelay with
  | some delay =>
      if (r.select request).isAsync then
        (resolution, { b with timers := b.timers ++ [⟨now + delay, id⟩] })
      else (resolution, b)
  | none => (resolution, b)

def create (b : Backend) (now : Nat) (id : String) : Except String ApplyResult × Backend :=
  let (resolution, b) := b.receive now id .create
  (resolution.map fun | .apply result => result | _ => .error, b)

def update (b : Backend) (now : Nat) (id : String) : Except String ApplyResult × Backend :=
  let (resolution, b) := b.receive now id .update
  (resolution.map fun | .apply result => result | _ => .error, b)

def verify (b : Backend) (now : Nat) (id : String) : Except String Condition × Backend :=
  let (resolution, b) := b.receive now id .verify
  (resolution.map fun | .verify found => found | _ => .error, b)

def delete (b : Backend) (now : Nat) (id : String) : Except String DeleteResult × Backend :=
  let (resolution, b) := b.receive now id .delete
  (resolution.map fun | .delete result => result | _ => .error, b)

/-! ## Time -/

/-- The instant of the next timer. -/
def due? (b : Backend) : Option Nat := (b.timers.map Completion.due).min?

/-- Lets the timers that are due by `now` run out, earlier ones first and those of one instant in the
order in which they were set. -/
def fire (b : Backend) (now : Nat) : Backend :=
  let (due, later) := b.timers.partition fun timer => timer.due ≤ now
  (due.mergeSort fun s t => s.due ≤ t.due).foldl (fun b timer => (b.complete timer.id).2)
    { b with timers := later }

/-! ## As a resource manager -/

/-- The fields that every answer carries. -/
def externalId (id : String) : Payload := (∅ : Payload).insert "externalId" (.text id)

/-- Answers a manager call.  A probe also tells which condition it found. -/
def perform (b : Backend) (now : Nat) (id : String) :
    (call : Call) → Except String call.Answer × Backend
  | .create =>
      let (result, b) := b.create now id
      (result.map fun result => ⟨result, some (externalId id)⟩, b)
  | .update =>
      let (result, b) := b.update now id
      (result.map fun result => ⟨result, some (externalId id)⟩, b)
  | .verify =>
      let (result, b) := b.verify now id
      (result.map fun found =>
        ⟨found, some ((externalId id).insert "observed" (.text (Named.name found)))⟩, b)
  | .delete => b.delete now id

end Backend

end Steward
