import Steward.Reconcile
import Steward.Site

/-!
# The bench

A bench runs single reconciles of both kinds at one site, one after the other, and shows what each
of them did.  The manager is the simulated backend, or it answers from a script.  A scripted answer
may take its time, and it may write to the stores just before it is given, so that a reconcile can be
watched while others write in between.
-/

namespace Steward

/-- An answer prepared for the next call of a kind. -/
structure Prepared (c : Call) where
  /-- How long the call takes. -/
  delay : Nat := 0
  /-- Store operations that come to pass just before the answer. -/
  interference : List ((kind : Kind) × StoreOp kind.Spec) := []
  answer : Except String c.Answer

/-- The answers prepared for each call, first come first served. -/
structure Script where
  create : List (Prepared .create) := []
  update : List (Prepared .update) := []
  verify : List (Prepared .verify) := []
  delete : List (Prepared .delete) := []

namespace Script

/-- What a call answers when nothing was prepared. -/
def unprepared : (c : Call) → c.Answer
  | .create | .update => ⟨.succeeded, none⟩
  | .verify => ⟨.ready, none⟩
  | .delete => .succeeded

def prepared (script : Script) : (c : Call) → List (Prepared c)
  | .create => script.create
  | .update => script.update
  | .verify => script.verify
  | .delete => script.delete

def setPrepared (script : Script) : (c : Call) → List (Prepared c) → Script
  | .create, answers => { script with create := answers }
  | .update, answers => { script with update := answers }
  | .verify, answers => { script with verify := answers }
  | .delete, answers => { script with delete := answers }

def prepare (script : Script) (c : Call) (answer : Prepared c) : Script :=
  script.setPrepared c (script.prepared c ++ [answer])

/-- The answer to the next call of a kind. -/
def take (script : Script) (c : Call) : Prepared c × Script :=
  match script.prepared c with
  | [] => ({ answer := .ok (unprepared c) }, script)
  | answer :: rest => (answer, script.setPrepared c rest)

end Script

structure Bench where
  site : Site := {}
  plain : Controller Plain
  linked : Controller Linked
  /-- The script of the manager; without one the backend of the site answers. -/
  script : Option Script := none
  /-- The manager calls made so far. -/
  calls : Array (Call × String) := #[]

namespace Bench

def controller (b : Bench) : (kind : Kind) → Controller kind.Spec
  | .plain => b.plain
  | .linked => b.linked

def onSite {α : Type} (b : Bench) (act : Site → α × Site) : α × Bench :=
  let (a, site) := act b.site
  (a, { b with site })

def interfere (site : Site) (interference : List ((kind : Kind) × StoreOp kind.Spec)) : Site :=
  interference.foldl (fun site ⟨kind, op⟩ => (site.perform kind op).2) site

/-- Carries out a manager call within a budget.  A call that takes exactly its budget is in time. -/
def perform (budget : Nat) (c : Call) (id : String) (b : Bench) : c.Ending × Bench :=
  let b := { b with calls := b.calls.push (c, id) }
  match b.script with
  | some script =>
      let (prepared, script) := script.take c
      let b := { b with script := some script }
      if prepared.delay ≤ budget then
        (some prepared.answer,
          { b with site := interfere (b.site.advance prepared.delay) prepared.interference })
      else (none, { b with site := b.site.advance budget })
  | none =>
      if b.site.backend.latency ≤ budget then
        let (answer, site) := (b.site.advance b.site.backend.latency).call c id
        (some answer, { b with site })
      else (none, { b with site := b.site.advance budget })

def surroundings (kind : Kind) : Procedure.Surroundings kind.Spec Bench where
  answer query b := b.onSite (Site.answer kind query)
  note event b := { b with site := b.site.note event }

/-- Reconciles a record of a kind. -/
def reconcile (b : Bench) (kind : Kind) (key : Key) : Except Fault Outcome × Bench :=
  let c := b.controller kind
  let (outcome, b) := ((c.reconcile key).run).run (surroundings kind)
    (fun call id _ b => b.perform c.intervals.operationTimeout call id) b
  (outcome, { b with site := b.site.advance 0 })

def store (b : Bench) (kind : Kind) (op : StoreOp kind.Spec) : StoreReply kind.Spec × Bench :=
  b.onSite fun site => site.perform kind op

def operate (b : Bench) (op : BackendOp) : BackendReply × Bench :=
  b.onSite fun site => site.operate op

def advance (b : Bench) (ms : Nat) : Bench := { b with site := b.site.advance ms }

/-- Prepares an answer of a scripted manager. -/
def prepare (b : Bench) (c : Call) (answer : Prepared c) : Bench :=
  { b with script := b.script.map fun script => script.prepare c answer }

end Bench

end Steward
