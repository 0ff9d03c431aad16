import Steward.Change
import Steward.Fault
import Steward.Manager
import Steward.Record

/-!
# Procedures

A procedure is a reconcile seen from outside: a tree whose nodes are the things it asks its
surroundings for, one at a time, and whose branches are the answers it may get.  Whatever happens
elsewhere happens between two nodes.  Store queries are answered at once; a call of the manager may
take time, so a procedure can be carried as far as its next call (`proceed`) and taken up again when
the call has ended.
-/

namespace Steward

/-- What a procedure asks of the stores. -/
inductive Query (σ : Type) where
  | read (key : Key)
  | writeMetadata (record : Record σ)
  | writeStatus (record : Record σ)
  /-- The status of a referenced record. -/
  | readStatus (key : Key)

abbrev Query.Answer {σ : Type} : Query σ → Type
  | .read _ => Except Fault (Option (Record σ))
  | .writeMetadata _ | .writeStatus _ => Except Fault (Record σ)
  | .readStatus _ => Except Fault (Option Status)

inductive Procedure (σ α : Type) where
  | done (result : α)
  | ask (query : Query σ) (resume : query.Answer → Procedure σ α)
  | call (call : Call) (id : String) (spec : σ) (resume : call.Ending → Procedure σ α)
  | report (event : Event) (next : Procedure σ α)

namespace Procedure

variable {σ α β ω : Type}

def bind : Procedure σ α → (α → Procedure σ β) → Procedure σ β
  | done a, f => f a
  | ask query resume, f => ask query fun answer => (resume answer).bind f
  | call c id spec resume, f => call c id spec fun ending => (resume ending).bind f
  | report event next, f => report event (next.bind f)

instance : Monad (Procedure σ) where
  pure := done
  bind := bind

/-- What answers the queries and takes the events of a procedure, in a world `ω`. -/
structure Surroundings (σ ω : Type) where
  answer : (query : Query σ) → ω → query.Answer × ω
  note : Event → ω → ω

/-- A procedure between two manager calls. -/
inductive Pause (σ α : Type) where
  | finished (result : α)
  | calling (call : Call) (id : String) (spec : σ) (resume : call.Ending → Procedure σ α)

/-- Carries a procedure on to its next manager call, or to its end. -/
def proceed (here : Surroundings σ ω) : Procedure σ α → ω → Pause σ α × ω
  | done a, w => (.finished a, w)
  | ask query resume, w =>
      let (answer, w) := here.answer query w
      (resume answer).proceed here w
  | call c id spec resume, w => (.calling c id spec resume, w)
  | report event next, w => next.proceed here (here.note event w)

/-- Carries a procedure to its end, where `perform` carries out manager calls. -/
def run (here : Surroundings σ ω)
    (perform : (call : Call) → String → σ → ω → call.Ending × ω) : Procedure σ α → ω → α × ω
  | done a, w => (a, w)
  | ask query resume, w =>
      let (answer, w) := here.answer query w
      (resume answer).run here perform w
  | call c id spec resume, w =>
      let (ending, w) := perform c id spec w
      (resume ending).run here perform w
  | report event next, w => next.run here perform (here.note event w)

end Procedure

/-- A procedure that a fault may cut short. -/
abbrev Attempt (σ α : Type) : Type := ExceptT Fault (Procedure σ) α

namespace Attempt

variable {σ : Type}

def read (key : Key) : Attempt σ (Option (Record σ)) :=
  .mk (.ask (.read key) .done)

def writeMetadata (record : Record σ) : Attempt σ (Record σ) :=
  .mk (.ask (.writeMetadata record) .done)

def writeStatus (record : Record σ) : Attempt σ (Record σ) :=
  .mk (.ask (.writeStatus record) .done)

/-- The status of a referenced record. -/
def readStatus (key : Key) : Procedure σ (Except Fault (Option Status)) :=
  .ask (.readStatus key) .done

def report (event : Event) : Attempt σ Unit :=
  .mk (.report event (.done (.ok ())))

/-- Calls the manager, with a budget in milliseconds. -/
def call (c : Call) (id : String) (spec : σ) (budget : Nat) :
    Attempt σ (Except String c.Answer) :=
  .mk <| .call c id spec fun
    | none => .done (.error (.timeout (Named.name c) id (Counter.capped budget)))
    | some answer => .done (.ok answer)

end Attempt

end Steward
