import Steward.Division
import Steward.Manifest
import Steward.Settings
import Steward.Timeline

/-!
# The operator

The operator runs one division for each sample kind at one site.  It applies manifests, asks for the
deletion of everything, tells how every record stands, and can wait until all records have settled
or are gone.  All of it happens on one clock.
-/

namespace Steward

/-- Why something that the operator was asked for failed. -/
inductive OperatorError where
  | build (fault : Fault)
  | create (fault : Fault)
  | update (key : Key) (fault : Fault)
  | delete (key : Key) (fault : Fault)
  | unsettled
  | unremoved
  deriving DecidableEq, Repr

namespace OperatorError

def message : OperatorError → String
  | build _ => "Failed to build controller"
  | create _ => "Failed to create instance"
  | update key _ => s!"Failed to update {key.text}"
  | delete key _ => s!"Failed to delete {key.text}"
  | unsettled => "Timed out waiting for instances to settle"
  | unremoved => "Timed out waiting for instances to be removed"

def cause? : OperatorError → Option Fault
  | build fault | create fault | update _ fault | delete _ fault => some fault
  | unsettled | unremoved => none

end OperatorError

/-- How one record stands. -/
structure SummaryLine where
  kind : String
  key : Key
  phase : Option Phase
  message : String
  deriving DecidableEq, Repr

namespace SummaryLine

def ofRecord (kind : Kind) (r : Record kind.Spec) : SummaryLine :=
  { kind := kind.definition.kind, key := r.key, phase := r.status.phase
    message := r.status.message }

def isSettled (line : SummaryLine) : Bool := line.phase.any Phase.isSettled

def toValue (line : SummaryLine) : Value :=
  .map [("kind", .text line.kind), ("key", .text line.key.text),
    ("state", line.phase.elim .null fun phase => .text (Named.name phase)),
    ("message", .text line.message)]

end SummaryLine

structure Operator where
  site : Site
  plain : Division .plain
  linked : Division .linked

namespace Operator

/-! ## Running -/

/-- A call that the backend accepted lands, or else one of the divisions moves on. -/
def step? (o : Operator) : Option Operator :=
  if o.site.backend.due?.any fun due => due ≤ o.site.clock then
    some { o with site := o.site.advanceTo o.site.clock }
  else
    match o.plain.step? o.site with
    | some (plain, site) => some { o with plain, site }
    | none => (o.linked.step? o.site).map fun (linked, site) => { o with linked, site }

def due? (o : Operator) : Option Nat :=
  (o.site.backend.due?.toList ++ o.plain.due?.toList ++ o.linked.due?.toList).min?

def timeline : Timeline Operator where
  clock o := o.site.clock
  setClock o clock := { o with site := { o.site with clock } }
  step? := step?
  due? := due?

def settle (o : Operator) : Operator := timeline.settle o

def advance (o : Operator) (ms : Nat) : Operator := timeline.advance ms o

/-- An operator with the given backend, both loops running. -/
def startWith (settings : Settings) (backend : Backend) : Except OperatorError Operator := do
  let build (kind : Kind) : Except OperatorError (Controller kind.Spec) :=
    (Controller.build kind.definition settings.intervals settings.annotationBase).mapError .build
  let plain ← build .plain
  let linked ← build .linked
  let o : Operator :=
    { site := { backend }, plain := .start plain settings.loop,
      linked := .start linked settings.loop }
  return o.settle

/-- An operator whose backend finishes what it accepted after the time that the settings say. -/
def start (settings : Settings) : Except OperatorError Operator :=
  startWith settings { completionDelay := some settings.completionDelay }

/-! ## Records -/

def onSite {α : Type} (o : Operator) (act : Site → α × Site) : α × Operator :=
  let (a, site) := act o.site
  (a, { o with site })

/-- Creates the record of an entry, or changes the specification of the one that is there. -/
def applyEntry (kind : Kind) (e : Entry kind.Spec) (site : Site) :
    Except OperatorError Unit × Site :=
  match site.access kind fun s => s.create e.toRecord with
  | (.ok _, site) => (.ok (), site)
  | (.error (.alreadyExists key), site) =>
      match site.access kind fun s => s.applySpec key e.spec with
      | (.ok _, site) => (.ok (), site)
      | (.error fault, site) => (.error (.update key fault), site)
  | (.error fault, site) => (.error (.create fault), site)

def requestDeletion (kind : Kind) (key : Key) (site : Site) : Except OperatorError Unit × Site :=
  match site.access kind fun s => s.requestDeletion site.wall key with
  | (.ok _, site) => (.ok (), site)
  | (.error fault, site) => (.error (.delete key fault), site)

/-- Does something with each item in turn and stops at the first that fails. -/
def forEach {α ε ω : Type} (act : α → ω → Except ε Unit × ω) : List α → ω → Except ε Unit × ω
  | [], w => (.ok (), w)
  | a :: rest, w =>
      match act a w with
      | (.ok _, w) => forEach act rest w
      | (.error e, w) => (.error e, w)

/-- Adds the behaviours of a manifest to the backend. -/
def installBehaviours (m : Manifest) (site : Site) : Site :=
  { site with
    backend := m.behaviours.toList.foldl (fun backend (id, behaviours) =>
      behaviours.foldl (fun backend behaviour => backend.addBehaviour id behaviour) backend)
      site.backend }

/-- Applies a manifest to a site: behaviours first, then plain and then linked entries in order. -/
def applyTo (m : Manifest) (site : Site) : Except OperatorError Unit × Site :=
  match forEach (applyEntry .plain) m.plain (installBehaviours m site) with
  | (.ok _, site) => forEach (applyEntry .linked) m.linked site
  | failed => failed

def apply (o : Operator) (m : Manifest) : Except OperatorError Unit × Operator :=
  let (result, o) := o.onSite (applyTo m)
  (result, o.settle)

/-- Asks for the deletion of every record, the linked ones first. -/
def deleteAllFrom (site : Site) : Except OperatorError Unit × Site :=
  match forEach (requestDeletion .linked) (site.linked.list.map Record.key) site with
  | (.ok _, site) => forEach (requestDeletion .plain) (site.plain.list.map Record.key) site
  | failed => failed

def deleteAll (o : Operator) : Except OperatorError Unit × Operator :=
  let (result, o) := o.onSite deleteAllFrom
  (result, o.settle)

/-- How every record stands: the plain ones first, each kind in the order of the keys. -/
def summary (o : Operator) : List SummaryLine :=
  o.site.plain.list.map (SummaryLine.ofRecord .plain) ++
  o.site.linked.list.map (SummaryLine.ofRecord .linked)

def isSettled (o : Operator) : Bool := o.summary.all SummaryLine.isSettled

def isEmpty (o : Operator) : Bool := o.site.plain.size == 0 && o.site.linked.size == 0

/-! ## Waiting -/

/-- How often a condition is looked at while it is waited for. -/
def pollInterval : Nat := 50

/-- Waits for a condition, `limit` at most; says whether it came about. -/
def waitFor (condition : Operator → Bool) (limit : Nat) (o : Operator) : Bool × Operator :=
  if condition o then (true, o)
  else if _enough : pollInterval ≤ limit then
    waitFor condition (limit - pollInterval) (o.advance pollInterval)
  else (false, o.advance limit)
termination_by limit
decreasing_by exact Nat.sub_lt_self (by decide) _enough

def waitSettled (o : Operator) (limit : Nat) :
    Except OperatorError (List SummaryLine) × Operator :=
  match o.waitFor isSettled limit with
  | (true, o) => (.ok o.summary, o)
  | (false, o) => (.error .unsettled, o)

def waitRemoved (o : Operator) (limit : Nat) : Except OperatorError Unit × Operator :=
  match o.waitFor isEmpty limit with
  | (true, o) => (.ok (), o)
  | (false, o) => (.error .unremoved, o)

/-! ## Other work at the site -/

/-- Carries out an operation on the backend and waits for its end. -/
def operate (o : Operator) (op : BackendOp) : BackendReply × Operator :=
  let o := o.advance (o.site.backend.duration op)
  let (reply, backend) := o.site.backend.carryOut o.site.clock op
  (reply, { o with site := { o.site with backend } : Operator }.settle)

/-- Carries out an operation on a store. -/
def edit (o : Operator) (kind : Kind) (op : StoreOp kind.Spec) : StoreReply kind.Spec × Operator :=
  let (reply, o) := o.onSite fun site => site.perform kind op
  (reply, o.settle)

/-- Both loops have come to an end. -/
def hasEnded (o : Operator) : Bool := o.plain.hasEnded && o.linked.hasEnded

/-- Stops the loops and waits until their workers have left. -/
def shutdown (o : Operator) : Operator :=
  timeline.runUntil hasEnded
    { o with plain := o.plain.stop, linked := o.linked.stop : Operator }.settle

end Operator

end Steward
