import Steward.Backend.Operations
import Steward.Kinds
import Steward.Procedure
import Steward.Store

/-!
# Sites

A site is where the engine works: the stores of both kinds, the backend, the journal of events and a
clock of whole milliseconds.  Procedures of either kind ask the store of their kind for their own
records, and the store of plain records for the statuses of references.
-/

namespace Steward

/-- The kinds of records at a site. -/
inductive Kind where
  | plain
  | linked
  deriving DecidableEq, Repr

namespace Kind

instance : Named Kind where
  all := [plain, linked]
  name
    | plain => "A"
    | linked => "B"

abbrev Spec : Kind → Type
  | plain => Plain
  | linked => Linked

instance : (kind : Kind) → DecidableEq kind.Spec
  | plain => inferInstanceAs (DecidableEq Plain)
  | linked => inferInstanceAs (DecidableEq Linked)

instance : (kind : Kind) → Layout kind.Spec
  | plain => inferInstanceAs (Layout Plain)
  | linked => inferInstanceAs (Layout Linked)

def definition : (kind : Kind) → Definition kind.Spec
  | plain => Plain.definition
  | linked => Linked.definition

end Kind

structure Site where
  plain : Store Plain := {}
  linked : Store Linked := {}
  backend : Backend := {}
  /-- The time since the site was opened. -/
  clock : Nat := 0
  /-- What the wall clock shows. -/
  wall : Instant := .epoch
  journal : Array Event := #[]

namespace Site

def store (site : Site) : (kind : Kind) → Store kind.Spec
  | .plain => site.plain
  | .linked => site.linked

def setStore (site : Site) : (kind : Kind) → Store kind.Spec → Site
  | .plain, s => { site with plain := s }
  | .linked, s => { site with linked := s }

/-- Lets a store access happen. -/
def access {α : Type} (site : Site) (kind : Kind)
    (act : Store kind.Spec → α × Store kind.Spec) : α × Site :=
  let (a, s) := act (site.store kind)
  (a, site.setStore kind s)

def perform (site : Site) (kind : Kind) (op : StoreOp kind.Spec) :
    StoreReply kind.Spec × Site :=
  site.access kind fun s => s.perform site.wall op

def answer (kind : Kind) : (query : Query kind.Spec) → Site → query.Answer × Site
  | .read key, site => site.access kind fun s => s.get key
  | .writeMetadata r, site => site.access kind fun s => s.update r
  | .writeStatus r, site => site.access kind fun s => s.updateStatus r
  | .readStatus key, site => site.access .plain fun s => s.readStatus key

def note (event : Event) (site : Site) : Site :=
  { site with journal := site.journal.push event }

def surroundings (kind : Kind) : Procedure.Surroundings kind.Spec Site where
  answer := answer kind
  note := note

/-- Lets the clock move on to `target`; calls that the backend accepted land meanwhile. -/
def advanceTo (site : Site) (target : Nat) : Site :=
  { site with clock := target, backend := site.backend.fire target }

def advance (site : Site) (ms : Nat) : Site := site.advanceTo (site.clock + ms)

/-- Carries out an operation on the backend and waits for its end. -/
def operate (site : Site) (op : BackendOp) : BackendReply × Site :=
  let site := site.advance (site.backend.duration op)
  let (reply, backend) := site.backend.carryOut site.clock op
  (reply, { site with backend := backend.fire site.clock })

/-- Lets the backend answer a manager call at once. -/
def call (site : Site) (c : Call) (id : String) : Except String c.Answer × Site :=
  let (answer, backend) := site.backend.perform site.clock id c
  (answer, { site with backend })

end Site

end Steward
