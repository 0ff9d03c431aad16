import Steward.Backend

/-!
# Operations on the simulated backend

What can be asked of the backend from outside, as data.  Calls take the backend's latency; all else
is immediate.
-/

namespace Steward

inductive BackendOp where
  | call (call : Call) (id : String)
  | behave (id : String) (behaviour : Backend.Behaviour)
  | clearBehaviours (id : String)
  | clear
  | complete (id : String)
  | completeAll
  | inspect (id : String)
  deriving Repr

inductive BackendReply where
  | done
  /-- The name of the result of a call. -/
  | result (name : String)
  | failure (message : String)
  | flag (landed : Bool)
  | count (landed : Nat)
  | resource (resource : Backend.Resource)
  deriving Repr

namespace BackendReply

def ofResult {ε : Type} [Named ε] : Except String ε → BackendReply
  | .ok value => .result (Named.name value)
  | .error message => .failure message

end BackendReply

namespace Backend

/-- How long an operation takes. -/
def duration (b : Backend) : BackendOp → Nat
  | .call _ _ => b.latency
  | _ => 0

/-- Carries out an operation at the instant `now`. -/
def carryOut (b : Backend) (now : Nat) : BackendOp → BackendReply × Backend
  | .call .create id =>
      let (result, b) := b.create now id
      (.ofResult result, b)
  | .call .update id =>
      let (result, b) := b.update now id
      (.ofResult result, b)
  | .call .verify id =>
      let (result, b) := b.verify now id
      (.ofResult result, b)
  | .call .delete id =>
      let (result, b) := b.delete now id
      (.ofResult result, b)
  | .behave id behaviour => (.done, b.addBehaviour id behaviour)
  | .clearBehaviours id => (.done, b.clearBehaviours id)
  | .clear => (.done, b.clear)
  | .complete id =>
      let (landed, b) := b.complete id
      (.flag landed, b)
  | .completeAll =>
      let (landed, b) := b.completeAll
      (.count landed, b)
  | .inspect id => (.resource (b.resource id), b)

end Backend

end Steward
