import Steward.Proofs.Scope
import Steward.Proofs.Shift

/-!
# Loops whose reconciles keep to a scope

A property of sites that not every query leaves alone still survives everything that the loops do,
if it survives the queries that reconciles ask.  Between two steps a reconcile may be suspended in
its call, so beside the site there is something to carry along: whatever waits is in scope, however
its call ends.
-/

namespace Steward

/-- The property of sites survives queries in scope, which are answered fittingly, as well as events
and whatever becomes of the backend; and every reconcile is in scope. -/
structure Site.Confined (scope : (kind : Kind) → Scope kind.Spec) (P : Site → Prop) : Prop where
  begins : ∀ {kind : Kind} (c : Controller kind.Spec) (key : Key),
    Procedure.Upholds (scope kind).conduct Controller.anyEnd (c.reconcile key).run []
  fits : ∀ {kind : Kind} (query : Query kind.Spec) (site : Site), P site →
    query.Fits (Site.answer kind query site).1
  answer : ∀ {kind : Kind} (query : Query kind.Spec) (site : Site), (scope kind).asks query →
    P site → P (Site.answer kind query site).2
  note : ∀ (event : Event) (site : Site), P site → P (site.note event)
  backend : ∀ (site : Site) (clock : Nat) (backend : Backend), P site →
    P { site with clock, backend }

/-- However its call ends, the reconcile that waits for it stays in scope. -/
def Suspended.Within {σ : Type} (scope : Scope σ) (s : Suspended σ) : Prop :=
  ∀ ending, ∃ deeds, (s.resume ending).Upholds scope.conduct Controller.anyEnd deeds

def Progress.Leaves {ρ : Type} (held : ρ → Prop) : Progress ρ → Prop
  | .finished _ => True
  | .waiting _ rest => held rest

def Shift.Holds {ρ : Type} (held : ρ → Prop) (s : Shift ρ) : Prop := ∀ job ∈ s.jobs, held job.rest

/-- What workers do keeps a property of the world, if what they held back has a property that
whatever they hold back has. -/
structure Work.Confined {ρ ω : Type} (work : Work ρ ω) (held : ρ → Prop) (P : ω → Prop) : Prop where
  begin : ∀ (key : Key) (w : ω), P w →
    (work.begin key w).1.Leaves held ∧ P (work.begin key w).2
  resume : ∀ (rest : ρ) (w : ω), held rest → P w →
    (work.resume rest w).1.Leaves held ∧ P (work.resume rest w).2

namespace Shift

variable {ρ ω : Type} {work : Work ρ ω} {held : ρ → Prop} {P : ω → Prop} {s t : Shift ρ}

theorem Holds.carry (holds : s.Holds held) (now worker : Nat) (key : Key) {progress : Progress ρ}
    (leaves : progress.Leaves held) : (s.carry now worker key progress).Holds held := by
  cases progress with
  | finished => exact holds
  | waiting due rest =>
      refine List.forall_mem_append.mpr ⟨holds, List.forall_mem_singleton.mpr ?_⟩
      exact leaves

theorem step?_confined (confined : work.Confined held P) {now : Nat} {w w' : ω}
    (steps : s.step? work now w = some (t, w')) (holds : s.Holds held) (here : P w) :
    t.Holds held ∧ P w' := by
  cases moves_of_step? steps with
  | @asks worker rest =>
      obtain ⟨key, loop, asks⟩ | ⟨_, asks⟩ := ask_cases { s with asking := rest } work now worker w
      · obtain ⟨leaves, after⟩ := confined.begin key w here
        rw [asks]
        exact ⟨Holds.carry (s := { s with loop, asking := rest }) holds now _ key leaves, after⟩
      · rw [asks]
        exact ⟨holds, here⟩
  | @goesOn job jobs pops =>
      have known : ∀ other ∈ job :: jobs, held other.rest := fun other mem =>
        holds other ((popJob?_perm pops).mem_iff.mpr mem)
      obtain ⟨own, others⟩ := List.forall_mem_cons.mp known
      obtain ⟨leaves, after⟩ := confined.resume job.rest w own here
      exact ⟨Holds.carry (s := { s with jobs }) others now _ job.key leaves, after⟩
  | runsOut | wakes => exact ⟨holds, here⟩

end Shift

def Division.Within {kind : Kind} (scope : Scope kind.Spec) (d : Division kind) : Prop :=
  d.shift.Holds (Suspended.Within scope)

/-- The site has the property, and all that waits is in scope. -/
structure Operator.Within (scope : (kind : Kind) → Scope kind.Spec) (P : Site → Prop)
    (o : Operator) : Prop where
  site : P o.site
  plain : o.plain.Within (scope .plain)
  linked : o.linked.Within (scope .linked)

namespace Site.Confined

variable {scope : (kind : Kind) → Scope kind.Spec} {P : Site → Prop} {kind : Kind}

theorem carryOn (confined : Confined scope P) (budget : Nat)
    {p : Procedure kind.Spec (Except Fault Outcome)} {deeds : List (Deed kind.Spec)} {site : Site}
    (upholds : p.Upholds (scope kind).conduct Controller.anyEnd deeds) (holds : P site) :
    (Suspended.carryOn budget p site).1.Leaves (Suspended.Within (scope kind)) ∧
      P (Suspended.carryOn budget p site).2 := by
  induction p generalizing deeds site with
  | done => exact ⟨trivial, holds⟩
  | ask query _ ih =>
      exact ih _ (upholds.2 _ (confined.fits query site holds))
        (confined.answer query site upholds.1 holds)
  | report event _ ih => exact ih upholds (confined.note event site holds)
  | call c id _ resume ih =>
      rw [Suspended.carryOn]
      split
      · exact ih _ (upholds.2 _) (confined.backend site site.clock _ holds)
      · exact ⟨fun ending => ⟨_, upholds.2 ending⟩, holds⟩

theorem work (confined : Confined scope P) (c : Controller kind.Spec) :
    c.work.Confined (Suspended.Within (scope kind)) P where
  begin key _ holds :=
    confined.carryOn c.intervals.operationTimeout (confined.begins c key) holds
  resume s site within holds := by
    change (s.goOn c.intervals.operationTimeout site).1.Leaves _ ∧
      P (s.goOn c.intervals.operationTimeout site).2
    rw [Suspended.goOn]
    split
    · obtain ⟨_, upholds⟩ := within (some (site.call s.call s.id).1)
      exact confined.carryOn _ upholds (confined.backend site site.clock _ holds)
    · obtain ⟨_, upholds⟩ := within none
      exact confined.carryOn _ upholds holds

theorem division (confined : Confined scope P) {d d' : Division kind} {site site' : Site}
    (steps : d.step? site = some (d', site')) (within : d.Within (scope kind)) (holds : P site) :
    d'.Within (scope kind) ∧ P site' := by
  obtain ⟨jobs, rfl⟩ | works := Division.step?_cases steps
  · rw [Division.Within, Shift.Holds, jobs]
    exact ⟨within, holds⟩
  · exact Shift.step?_confined (confined.work d.controller) works within holds

theorem timeline (confined : Confined scope P) :
    Operator.timeline.Keeps (Operator.Within scope P) where
  setClock o now within :=
    { within with site := confined.backend o.site now o.site.backend within.site }
  step {o o'} steps within := by
    obtain rfl | ⟨_, _, works, rfl⟩ | ⟨_, _, works, rfl⟩ := Operator.step?_cases steps
    · exact { within with site := confined.backend o.site o.site.clock _ within.site }
    · obtain ⟨plain, site⟩ := confined.division works within.plain within.site
      exact { within with plain, site }
    · obtain ⟨linked, site⟩ := confined.division works within.linked within.site
      exact { within with linked, site }

end Site.Confined

end Steward
