import Steward.Procedure

/-!
# What a procedure does, whatever it is answered

The deeds of a procedure are what it asked, called and reported, with the answers it got.  A conduct
says which question and which call may come next after the deeds so far, and `Upholds` says that a
procedure keeps to a conduct on every path through it and that its result is as promised.  Of the
stores only this much is taken for granted: that a record is found under its own key, and that a
write answers with the record that it wrote.
-/

namespace Steward

variable {σ α β : Type}

/-- One thing that a procedure did, with what came of it. -/
inductive Deed (σ : Type) where
  | asked (query : Query σ) (answer : query.Answer)
  | issued (call : Call) (id : String) (spec : σ)
  | ended (call : Call) (ending : call.Ending)
  | reported (event : Event)

namespace Deed

/-- The record that a store showed when it was read or written. -/
def record? : Deed σ → Option (Record σ)
  | .asked (.read _) (.ok found) => found
  | .asked (.writeMetadata _) (.ok r) => some r
  | .asked (.writeStatus _) (.ok r) => some r
  | _ => none

/-- The record that was read or written last, where the newest deed comes first. -/
def inHand (deeds : List (Deed σ)) : Option (Record σ) := deeds.findSome? record?

theorem inHand_cons (deed : Deed σ) (deeds : List (Deed σ)) :
    inHand (deed :: deeds) = deed.record?.or (inHand deeds) := by
  rw [inHand, inHand, List.findSome?_cons]
  cases deed.record? <;> rfl

end Deed

/-- The record that a query would write. -/
def Query.written? : Query σ → Option (Record σ)
  | .writeMetadata r | .writeStatus r => some r
  | .read _ | .readStatus _ => none

/-- What a store in good order may answer. -/
def Query.Fits : (query : Query σ) → query.Answer → Prop
  | .read key, answer => ∀ r, answer = .ok (some r) → r.key = key
  | .writeMetadata incoming, answer => ∀ r, answer = .ok r →
      r.key = incoming.key ∧ r.spec = incoming.spec ∧
        r.metadata.annotations = incoming.metadata.annotations ∧
        r.metadata.finalizers = incoming.metadata.finalizers
  | .writeStatus incoming, answer => ∀ r, answer = .ok r →
      r.key = incoming.key ∧ r.status = incoming.status
  | .readStatus _, _ => True

/-- What may be asked and called next, after the deeds so far. -/
structure Conduct (σ : Type) where
  asks : List (Deed σ) → Query σ → Prop
  calls : List (Deed σ) → Call → String → σ → Prop

namespace Procedure

variable {conduct : Conduct σ} {deeds : List (Deed σ)}

/-- On every path the procedure keeps to the conduct, and where it ends `post` holds of its deeds
and its result. -/
def Upholds (conduct : Conduct σ) (post : List (Deed σ) → α → Prop) :
    Procedure σ α → List (Deed σ) → Prop
  | done a, deeds => post deeds a
  | ask query resume, deeds =>
      conduct.asks deeds query ∧
        ∀ answer, query.Fits answer →
          (resume answer).Upholds conduct post (.asked query answer :: deeds)
  | call k id spec resume, deeds =>
      conduct.calls deeds k id spec ∧
        ∀ ending, (resume ending).Upholds conduct post
          (.ended k ending :: .issued k id spec :: deeds)
  | report event next, deeds => next.Upholds conduct post (.reported event :: deeds)

theorem upholds_bind {post : List (Deed σ) → β → Prop} (p : Procedure σ α)
    (f : α → Procedure σ β) :
    (p.bind f).Upholds conduct post deeds ↔
      p.Upholds conduct (fun deeds a => (f a).Upholds conduct post deeds) deeds := by
  induction p generalizing deeds with
  | done a => exact Iff.rfl
  | ask query resume ih =>
      simp only [bind, Upholds, ih]
  | call k id spec resume ih =>
      simp only [bind, Upholds, ih]
  | report event next ih =>
      simp only [bind, Upholds, ih]

theorem Upholds.imp {post post' : List (Deed σ) → α → Prop} {p : Procedure σ α}
    (upholds : p.Upholds conduct post deeds) (weaken : ∀ deeds a, post deeds a → post' deeds a) :
    p.Upholds conduct post' deeds := by
  induction p generalizing deeds with
  | done a => exact weaken deeds a upholds
  | ask query resume ih =>
      exact ⟨upholds.1, fun answer fits => ih answer (upholds.2 answer fits)⟩
  | call k id spec resume ih =>
      exact ⟨upholds.1, fun ending => ih ending (upholds.2 ending)⟩
  | report event next ih => exact ih upholds

end Procedure

namespace Attempt

variable {conduct : Conduct σ} {deeds : List (Deed σ)}

/-- `Procedure.Upholds` for an attempt, whose result may be a fault. -/
def Upholds (conduct : Conduct σ) (post : List (Deed σ) → Except Fault α → Prop)
    (x : Attempt σ α) (deeds : List (Deed σ)) : Prop :=
  Procedure.Upholds conduct post x.run deeds

/-- What has to hold after the first part of an attempt that goes on with `f`. -/
def Onward (conduct : Conduct σ) (post : List (Deed σ) → Except Fault β → Prop)
    (f : α → Attempt σ β) (deeds : List (Deed σ)) : Except Fault α → Prop
  | .ok a => (f a).Upholds conduct post deeds
  | .error fault => post deeds (.error fault)

theorem upholds_bind {post : List (Deed σ) → Except Fault β → Prop} (x : Attempt σ α)
    (f : α → Attempt σ β) :
    Upholds conduct post (x >>= f) deeds ↔ x.Upholds conduct (Onward conduct post f) deeds := by
  change ((x.run).bind _).Upholds conduct post deeds ↔ _
  rw [Procedure.upholds_bind]
  refine iff_of_eq (congrArg (fun goal => Procedure.Upholds conduct goal x.run deeds) ?_)
  funext deeds result
  cases result <;> rfl

theorem upholds_read {post : List (Deed σ) → Except Fault (Option (Record σ)) → Prop} {key : Key} :
    (read key).Upholds conduct post deeds ↔
      conduct.asks deeds (.read key) ∧
        ∀ answer, (Query.read key).Fits answer →
          post (.asked (.read key) answer :: deeds) answer := Iff.rfl

theorem upholds_writeMetadata {post : List (Deed σ) → Except Fault (Record σ) → Prop}
    {r : Record σ} :
    (writeMetadata r).Upholds conduct post deeds ↔
      conduct.asks deeds (.writeMetadata r) ∧
        ∀ answer, (Query.writeMetadata r).Fits answer →
          post (.asked (.writeMetadata r) answer :: deeds) answer := Iff.rfl

theorem upholds_writeStatus {post : List (Deed σ) → Except Fault (Record σ) → Prop}
    {r : Record σ} :
    (writeStatus r).Upholds conduct post deeds ↔
      conduct.asks deeds (.writeStatus r) ∧
        ∀ answer, (Query.writeStatus r).Fits answer →
          post (.asked (.writeStatus r) answer :: deeds) answer := Iff.rfl

theorem upholds_report {post : List (Deed σ) → Except Fault Unit → Prop} {event : Event} :
    (report event : Attempt σ Unit).Upholds conduct post deeds ↔
      post (.reported event :: deeds) (.ok ()) := Iff.rfl

/-- A call that runs out of its budget ends the attempt with a timeout. -/
theorem upholds_call {k : Call} {id : String} {spec : σ} {budget : Nat}
    {post : List (Deed σ) → Except Fault (Except String k.Answer) → Prop} :
    (call k id spec budget).Upholds conduct post deeds ↔
      conduct.calls deeds k id spec ∧
        (post (.ended k none :: .issued k id spec :: deeds)
          (.error (.timeout (Named.name k) id (Counter.capped budget)))) ∧
        ∀ answer, post (.ended k (some answer) :: .issued k id spec :: deeds) (.ok answer) := by
  constructor
  · rintro ⟨calls, ends⟩
    exact ⟨calls, ends none, fun answer => ends (some answer)⟩
  · rintro ⟨calls, overrun, answered⟩
    refine ⟨calls, fun ending => ?_⟩
    cases ending with
    | none => exact overrun
    | some answer => exact answered answer

end Attempt

end Steward
