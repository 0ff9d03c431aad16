import Steward.Controller
import Steward.Deletion
import Steward.Procedure

/-!
# Reconciling one record

One reconcile reads the latest record, decides which manager call, if any, is due, writes down what
came of it, and says when to look again.  It never waits for the external system to finish: a later
reconcile probes for that.  The finalizer is in place before the first call, at most one mutating
call is issued, and a status is written only when it differs from the one that was read.

A fault leaves the status as it was, and the whole reconcile is to be done again.  A failure that the
manager reports is no fault; it becomes the status of the record.
-/

namespace Steward

structure Outcome where
  /-- The status as it was written down; none once there is nothing left to look after. -/
  status : Option Status
  /-- When to look again; none means only when something changes. -/
  requeueAfter : Option Nat
  deriving DecidableEq

namespace Outcome

def finished : Outcome := ⟨none, none⟩

def phase (outcome : Outcome) : Option Phase := outcome.status.bind Status.phase

end Outcome

/-- A change of status that was decided and not yet written. -/
structure Transition where
  phase : Phase
  message : String
  /-- The operation that was issued, if one was. -/
  operation : Option Mutation := none
  payload : Option Payload := none
  event : Option (Severity × String) := none

namespace Transition

def pending (message : String) : Transition := { phase := .pending, message }

def inProgress (message : String) : Transition := { phase := .inProgress, message }

def succeeded (message : String) : Transition := { phase := .succeeded, message }

def failed (message : String) : Transition := { phase := .failed, message }

/-- Adds an event that is reported if the status changes. -/
def reporting (t : Transition) (severity : Severity) (reason : String) : Transition :=
  { t with event := some (severity, reason) }

def withPayload (t : Transition) (payload : Option Payload) : Transition := { t with payload }

def issued (t : Transition) (operation : Mutation) : Transition :=
  { t with operation := some operation }

/-- The status after the transition. -/
def apply (t : Transition) (previous : Status) : Status :=
  let status : Status :=
    { previous with
      phase := some t.phase
      message := clipped t.message
      operation := t.operation <|> previous.operation }
  match t.payload with
  | none => status
  | some payload => status.merge payload

/-- What the answer to a create or an update leads to. -/
def afterApply (operation : Mutation) : Except String (Response ApplyResult) → Transition
  | .ok ⟨.succeeded, payload⟩ =>
      ((succeeded s!"successfully {operation.past} resource").reporting .normal "Applied"
        |>.withPayload payload |>.issued operation)
  | .ok ⟨.awaitingVerification, payload⟩ =>
      ((inProgress s!"waiting for {operation.verb} to complete").withPayload payload
        |>.issued operation)
  | .ok ⟨.error, payload⟩ =>
      ((failed s!"error {operation.progressive} resource").reporting .warning "ApplyFailed"
        |>.withPayload payload |>.issued operation)
  | .error message =>
      ((failed message).reporting .warning "ApplyFailed").issued operation

def denied (operation : Mutation) : Transition :=
  (failed (Permissions.deniedMessage operation)).reporting .warning "PermissionDenied"

end Transition

/-- What a probe of a record that is not being deleted leads to. -/
inductive Verdict where
  /-- Write this down. -/
  | settle (transition : Transition)
  /-- Issue this operation. -/
  | apply (operation : Mutation)

namespace Verdict

/-- The verdict on a condition that was found, given the phase that was written down last. -/
def ofCondition (found : Condition) (phase : Option Phase) : Verdict :=
  match found with
  | .ready => .settle (.succeeded "resource is ready")
  | .updateRequired => .apply .update
  | .inProgress => .settle waiting
  | .missing =>
      if phase = some .inProgress then .settle waiting
      else if phase = some .failed then .apply .create
      else .settle ((Transition.failed "external resource is missing").reporting .warning
        "ResourceMissing")
  | .deleting =>
      if phase = some .inProgress then .settle waiting
      else .settle ((Transition.failed "external resource is being deleted").reporting .warning
        "ResourceDeleting")
  | .error =>
      .settle ((Transition.failed "external resource reported an error").reporting .warning
        "VerifyFailed")
where
  waiting : Transition := .inProgress "waiting for resource to become ready"

end Verdict

namespace Controller

variable {σ : Type}

def resourceId (c : Controller σ) (r : Record σ) : String := c.definition.resourceId r.spec

def event (c : Controller σ) (key : Key) (severity : Severity) (reason message : String) : Event :=
  { kind := c.definition.kind, key, severity, reason, message }

/-- When to look again at a record that was left in `phase`. -/
def requeueAfter (c : Controller σ) : Phase → Nat
  | .pending | .inProgress => c.intervals.requeueAfter
  | .succeeded => c.intervals.requeueAfterSuccess
  | .failed => c.intervals.requeueAfterFailure

def call (c : Controller σ) (k : Call) (r : Record σ) : Attempt σ (Except String k.Answer) :=
  Attempt.call k (c.resourceId r) r.spec c.intervals.operationTimeout

/-- Writes the status after a transition, if it differs from the one that was read. -/
def commit (c : Controller σ) (r : Record σ) (t : Transition) : Attempt σ Outcome := do
  let status := t.apply r.status
  if status ≠ r.status then
    let _ ← Attempt.writeStatus { r with status }
    if let some (severity, reason) := t.event then
      Attempt.report (c.event r.key severity reason status.message)
  return ⟨some status, some (c.requeueAfter t.phase)⟩

/-- Issues a create or an update, if it is permitted. -/
def apply (c : Controller σ) (operation : Mutation) (r : Record σ) (permissions : Permissions) :
    Attempt σ Transition := do
  if !permissions.allows operation then
    return .denied operation
  else if operation = .update then
    return .afterApply operation (← c.call .update r)
  else
    return .afterApply operation (← c.call .create r)

/-- Decides what to do with a record whose references are ready, and does it. -/
def drive (c : Controller σ) (r : Record σ) (permissions : Permissions) :
    Attempt σ Transition := do
  if r.status.operation = none then
    c.apply .create r permissions
  else
    match ← c.call .verify r with
    | .error message => return (Transition.failed message).reporting .warning "VerifyFailed"
    | .ok ⟨found, payload⟩ =>
        match Verdict.ofCondition found r.status.phase with
        | .settle transition => return transition.withPayload payload
        | .apply operation => c.apply operation r permissions

/-- Removes the finalizer, so that the store can drop the record. -/
def release (c : Controller σ) (r : Record σ) : Attempt σ Outcome := do
  if r.metadata.hasFinalizer c.definition.finalizer then
    let _ ← Attempt.writeMetadata
      { r with metadata := r.metadata.removeFinalizer c.definition.finalizer }
    Attempt.report (c.event r.key .normal "Deleted" "finalizer removed")
  return .finished

def advanceDeletion (c : Controller σ) (r : Record σ) : DeletionProgress → Attempt σ Outcome
  | .confirmed => c.release r
  | .inProgress | .reissue =>
      c.commit r ((Transition.inProgress "deleting resource").issued .delete)
  | .failed message =>
      c.commit r (((Transition.failed message).reporting .warning "DeleteFailed").issued .delete)

def issueDelete (c : Controller σ) (r : Record σ) : Attempt σ Outcome := do
  match ← c.call .delete r with
  | .ok result => c.advanceDeletion r (.afterDelete result)
  | .error message => c.advanceDeletion r (.failed message)

def verifyDelete (c : Controller σ) (r : Record σ) : Attempt σ Outcome := do
  match ← c.call .verify r with
  | .error message => c.advanceDeletion r (.failed message)
  | .ok ⟨found, _⟩ =>
      match DeletionProgress.afterVerify found (r.status.phase == some .failed) with
      | .reissue => c.issueDelete r
      | progress => c.advanceDeletion r progress

/-- One step of the deletion of a record. -/
def reconcileDeletion (c : Controller σ) (r : Record σ) (permissions : Permissions) :
    Attempt σ Outcome := do
  match DeletionPlan.next r.metadata r.status permissions c.definition.finalizer with
  | .nothing => return .finished
  | .releaseWithoutDelete =>
      Attempt.report (c.event r.key .normal "DeleteSkipped" (Permissions.deniedMessage .delete))
      c.release r
  | .delete => c.issueDelete r
  | .verifyDelete => c.verifyDelete r

/-- The record with the engine's finalizer in place. -/
def ensureFinalizer (c : Controller σ) (r : Record σ) : Attempt σ (Record σ) := do
  if r.metadata.hasFinalizer c.definition.finalizer then
    return r
  else
    Attempt.writeMetadata { r with metadata := r.metadata.addFinalizer c.definition.finalizer }

/-- Looks after a record that is to stay. -/
def reconcilePresent (c : Controller σ) (r : Record σ) (permissions : Permissions) :
    Attempt σ Outcome := do
  let r ← c.ensureFinalizer r
  match c.definition.references r with
  | .error (.invalidInstance _ reason) =>
      c.commit r ((Transition.failed reason).reporting .warning "InvalidInstance")
  | .error fault => throw fault
  | .ok refs =>
      let readiness ← ExceptT.mk (Readiness.check Attempt.readStatus refs.all)
      if readiness.isReady then
        c.commit r (← c.drive r permissions)
      else
        c.commit r (.pending readiness.message)

/-- Reconciles the record under a key. -/
def reconcile (c : Controller σ) (key : Key) : Attempt σ Outcome := do
  match ← Attempt.read key with
  | none => return .finished
  | some r =>
      let permissions := Permissions.ofAnnotations r.metadata.annotations c.permissionKey
      if r.metadata.isDeletionRequested then
        c.reconcileDeletion r permissions
      else
        c.reconcilePresent r permissions

end Controller

end Steward
