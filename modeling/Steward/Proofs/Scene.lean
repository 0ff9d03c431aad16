import Steward.Kinds
import Steward.Proofs.Conduct
import Steward.Proofs.Store

/-!
# A reconcile among others

A scene is the store of one kind together with the reconcile of one key, of which there is at most
one at a time.  The reconcile goes on one deed at a time, and others may use the store between any
two of its deeds, also while a manager call is under way.  The manager answers what it likes, or
not in time, and the store fails when someone told it to.  What happened is kept in a history, the
newest first.
-/

namespace Steward

open Deed

variable {σ : Type}

inductive Happening (σ : Type) where
  /-- Someone else used the store. -/
  | outside (op : StoreOp σ) (reply : StoreReply σ)
  | began
  | did (deed : Deed σ)
  | returned (result : Except Fault Outcome)

/-- How far the reconcile is. -/
inductive Engine (σ : Type) where
  | idle
  | running (rest : Procedure σ (Except Fault Outcome))
  | calling (call : Call) (resume : call.Ending → Procedure σ (Except Fault Outcome))

structure Scene (σ : Type) where
  store : Store σ := {}
  engine : Engine σ := .idle

/-- How a store answers a query.  The statuses of references may come from other stores, so nothing
is said of them; to look one up may use up failures that were pending here. -/
inductive Store.Answers [DecidableEq σ] :
    Store σ → (query : Query σ) → query.Answer → Store σ → Prop where
  | read (s : Store σ) (key : Key) : Answers s (.read key) (s.get key).1 (s.get key).2
  | writeMetadata (s : Store σ) (r : Record σ) :
      Answers s (.writeMetadata r) (s.update r).1 (s.update r).2
  | writeStatus (s : Store σ) (r : Record σ) :
      Answers s (.writeStatus r) (s.updateStatus r).1 (s.updateStatus r).2
  | readStatus (s : Store σ) (key : Key) (answer : Except Fault (Option Status)) (faults : Nat) :
      Answers s (.readStatus key) answer { s with faults }

namespace Scene

/-- What others may do with a store. -/
abbrev Custom (σ : Type) : Type := Store σ → StoreOp σ → Prop

variable [DecidableEq σ]

inductive Step (c : Controller σ) (key : Key) (may : Custom σ) :
    Scene σ → Happening σ → Scene σ → Prop where
  | outside {s : Store σ} {engine : Engine σ} (now : Instant) (op : StoreOp σ)
      (allowed : may s op) :
      Step c key may ⟨s, engine⟩ (.outside op (s.perform now op).1) ⟨(s.perform now op).2, engine⟩
  | begin {s : Store σ} :
      Step c key may ⟨s, .idle⟩ .began ⟨s, .running (c.reconcile key).run⟩
  | ask {s t : Store σ} {query : Query σ} {answer : query.Answer}
      {resume : query.Answer → Procedure σ (Except Fault Outcome)}
      (answers : s.Answers query answer t) :
      Step c key may ⟨s, .running (.ask query resume)⟩ (.did (.asked query answer))
        ⟨t, .running (resume answer)⟩
  | issue {s : Store σ} {call : Call} {id : String} {spec : σ}
      {resume : call.Ending → Procedure σ (Except Fault Outcome)} :
      Step c key may ⟨s, .running (.call call id spec resume)⟩ (.did (.issued call id spec))
        ⟨s, .calling call resume⟩
  | finish {s : Store σ} (call : Call)
      {resume : call.Ending → Procedure σ (Except Fault Outcome)} (ending : call.Ending) :
      Step c key may ⟨s, .calling call resume⟩ (.did (.ended call ending))
        ⟨s, .running (resume ending)⟩
  | report {s : Store σ} {event : Event} {next : Procedure σ (Except Fault Outcome)} :
      Step c key may ⟨s, .running (.report event next)⟩ (.did (.reported event))
        ⟨s, .running next⟩
  | stop {s : Store σ} {result : Except Fault Outcome} :
      Step c key may ⟨s, .running (.done result)⟩ (.returned result) ⟨s, .idle⟩

/-- The histories of a scene that begins with an empty store. -/
inductive Run (c : Controller σ) (key : Key) (may : Custom σ) :
    List (Happening σ) → Scene σ → Prop where
  | start : Run c key may [] {}
  | step {past : List (Happening σ)} {s t : Scene σ} {happening : Happening σ}
      (run : Run c key may past s) (step : Step c key may s happening t) :
      Run c key may (happening :: past) t

/-- The deeds of the reconcile that is under way. -/
def sitting : List (Happening σ) → List (Deed σ)
  | .did deed :: past => deed :: sitting past
  | .outside _ _ :: past => sitting past
  | .began :: _ | .returned _ :: _ | [] => []

end Scene

/-! ## The store answers fittingly -/

namespace Store

variable [DecidableEq σ] {s t : Store σ} {query : Query σ} {answer : query.Answer}

theorem Answers.filed (answers : s.Answers query answer t) (filed : s.Filed) : t.Filed := by
  cases answers with
  | read key => exact filed.of_eq (get_records s key)
  | writeMetadata r => exact writeWith_filed filed
  | writeStatus r => exact writeWith_filed filed
  | readStatus => exact filed.of_eq rfl

theorem Answers.fits (answers : s.Answers query answer t) (filed : s.Filed) :
    query.Fits answer := by
  cases answers with
  | read key =>
      intro r found
      exact filed key r (get_ok found).symm
  | writeMetadata incoming =>
      intro r written
      obtain ⟨fault, refused, _⟩ | ⟨stored, found, _, granted, _⟩ :=
        writeWith_cases s "update" incoming (rewritten incoming)
      · cases refused.symm.trans written
      · have own : stored.key = incoming.key := filed _ _ found
        cases granted.symm.trans written
        exact ⟨own, rfl, rfl, rfl⟩
  | writeStatus incoming =>
      intro r written
      obtain ⟨fault, refused, _⟩ | ⟨stored, found, _, granted, _⟩ :=
        writeWith_cases s "update_status" incoming (restated incoming)
      · cases refused.symm.trans written
      · have own : stored.key = incoming.key := filed _ _ found
        cases granted.symm.trans written
        exact ⟨own, rfl⟩
  | readStatus => exact trivial

/-- A record with finalizers that the store shows is in the store. -/
theorem Answers.shows (answers : s.Answers query answer t) (filed : s.Filed) {r : Record σ}
    (shown : (Deed.asked query answer).record? = some r) (held : r.metadata.finalizers ≠ []) :
    t.records[r.key]? = some r := by
  cases answers with
  | readStatus => cases shown
  | read key =>
      cases answer : (s.get key).1 with
      | error fault => simp [Deed.record?, answer] at shown
      | ok found =>
          simp only [Deed.record?, answer] at shown
          subst shown
          have stored : s.records[key]? = some r := (get_ok answer).symm
          have own : r.key = key := filed key r stored
          rw [get_records, own]
          exact stored
  | writeMetadata incoming =>
      cases answer : (s.update incoming).1 with
      | error fault => simp [Deed.record?, answer] at shown
      | ok written =>
          simp only [Deed.record?, answer, Option.some.injEq] at shown
          subst shown
          exact writeWith_shows answer held
  | writeStatus incoming =>
      cases answer : (s.updateStatus incoming).1 with
      | error fault => simp [Deed.record?, answer] at shown
      | ok written =>
          simp only [Deed.record?, answer, Option.some.injEq] at shown
          subst shown
          exact writeWith_shows answer held

end Store

/-! ## The engine keeps to its conduct -/

/-- What is left of a reconcile keeps to a conduct, after the deeds so far. -/
def Engine.Upholds (conduct : Conduct σ) (deeds : List (Deed σ)) : Engine σ → Prop
  | .idle => True
  | .running rest => rest.Upholds conduct (fun _ _ => True) deeds
  | .calling call resume =>
      ∀ ending, (resume ending).Upholds conduct (fun _ _ => True) (.ended call ending :: deeds)

/-- What is left of a reconcile keeps to a conduct and ends as promised, after the deeds so far. -/
def Engine.Keeps (conduct : Conduct σ) (post : List (Deed σ) → Except Fault Outcome → Prop)
    (deeds : List (Deed σ)) : Engine σ → Prop
  | .idle => True
  | .running rest => rest.Upholds conduct post deeds
  | .calling call resume =>
      ∀ ending, (resume ending).Upholds conduct post (.ended call ending :: deeds)

namespace Scene

variable [DecidableEq σ] {c : Controller σ} {key : Key} {may : Custom σ}
variable {past : List (Happening σ)} {s t : Scene σ} {happening : Happening σ}
variable {conduct : Conduct σ} {post : List (Deed σ) → Except Fault Outcome → Prop}

theorem Step.filed (step : Step c key may s happening t) (filed : s.store.Filed) :
    t.store.Filed := by
  cases step with
  | outside now op _ => exact (Store.perform_lawful filed now op).filed
  | ask answers => exact answers.filed filed
  | begin | issue | finish | report | stop => exact filed

theorem Run.filed (run : Run c key may past s) : s.store.Filed := by
  induction run with
  | start => exact Store.filed_empty
  | step _ step ih => exact step.filed ih

theorem Step.keeps (step : Step c key may s happening t) (filed : s.store.Filed)
    (upholds : (c.reconcile key).Upholds conduct post [])
    (keeps : s.engine.Keeps conduct post (sitting past)) :
    t.engine.Keeps conduct post (sitting (happening :: past)) := by
  cases step with
  | outside => exact keeps
  | begin => exact upholds
  | ask answers => exact keeps.2 _ (answers.fits filed)
  | issue => exact keeps.2
  | finish _ ending => exact keeps ending
  | report => exact keeps
  | stop => exact trivial

/-- In every run what is left of the reconcile keeps to what a whole reconcile keeps to. -/
theorem Run.keeps (run : Run c key may past s)
    (upholds : (c.reconcile key).Upholds conduct post []) :
    s.engine.Keeps conduct post (sitting past) := by
  induction run with
  | start => exact trivial
  | step run step ih => exact step.keeps run.filed upholds ih

theorem Run.upholds (run : Run c key may past s) :
    s.engine.Upholds (c.conduct key) (sitting past) := by
  have keeps := run.keeps (c.reconcile_upholds key)
  generalize s.engine = engine at keeps ⊢
  cases engine <;> exact keeps

/-! ## A sample -/

def sampleKey : Key := ⟨"default", "web"⟩

def sampleRecord : Record Plain := { metadata := { key := sampleKey }, spec := { id := "vm-1" } }

/-- The sample record with the finalizer on it from the start. -/
def guardedSample : Record Plain :=
  { sampleRecord with metadata := { key := sampleKey, finalizers := ["a.finalizers.com"] } }

def sample : Controller Plain where
  definition := Plain.definition
  intervals := {}
  permissionKey := Permissions.annotationName Permissions.defaultBase

def linkedSample : Controller Linked where
  definition := Linked.definition
  intervals := {}
  permissionKey := Permissions.annotationName Permissions.defaultBase

def sampleInstant : Instant := ⟨2024, 5, 1, 12, 0, 0, 0⟩

end Scene

end Steward
