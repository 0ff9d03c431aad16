import Steward.Operator
import Steward.Proofs.Shift
import Steward.Proofs.Store

/-!
# What lasts at the site of an operator

Whatever an operator is asked for, its site changes in few ways: a store is accessed, an event is
noted, and time passes for the backend or it is called.  A property of sites that survives these
survives everything that the loops do at an instant, and the passing of time.  That every record
lies under its own key is such a property, and it holds of every operator that was started.
-/

namespace Steward

/-! ## Timelines -/

namespace Timeline

variable {ω : Type} {tl : Timeline ω} {P : ω → Prop}

/-- The property survives whatever happens, and a change of the clock. -/
structure Keeps (tl : Timeline ω) (P : ω → Prop) : Prop where
  step : ∀ {w w' : ω}, tl.step? w = some w' → P w → P w'
  setClock : ∀ (w : ω) (now : Nat), P w → P (tl.setClock w now)

theorem Keeps.settleWithin (keeps : tl.Keeps P) (budget : Nat) {w : ω} (holds : P w) :
    P (tl.settleWithin budget w) := by
  induction budget generalizing w with
  | zero => exact holds
  | succ budget ih =>
      rw [Timeline.settleWithin]
      cases moves : tl.step? w with
      | none => exact holds
      | some next => exact ih (keeps.step moves holds)

theorem Keeps.settle (keeps : tl.Keeps P) {w : ω} (holds : P w) : P (tl.settle w) :=
  keeps.settleWithin (tl.budget w) holds

theorem Keeps.visit (keeps : tl.Keeps P) (target now : Nat) {w : ω} (holds : P w) :
    P (tl.visit target now w) := by
  -- The cases are those of the visit: nothing is due, something ahead, or something gone by.
  induction now, w using Timeline.visit.induct tl target with
  | case1 now w idle =>
      rw [Timeline.visit, idle]
      exact holds
  | case2 now w due next ahead ih =>
      rw [Timeline.visit, next]
      simp only [dif_pos ahead]
      exact ih (keeps.settle (keeps.setClock w due holds))
  | case3 now w due next behind =>
      rw [Timeline.visit, next]
      simp only [dif_neg behind]
      exact holds

theorem Keeps.advance (keeps : tl.Keeps P) (ms : Nat) {w : ω} (holds : P w) :
    P (tl.advance ms w) :=
  keeps.setClock _ _ (keeps.visit _ _ (keeps.settle holds))

theorem Keeps.runUntil (keeps : tl.Keeps P) (condition : ω → Bool) {w : ω} (holds : P w) :
    P (tl.runUntil condition w) := by
  have within (budget : Nat) {w : ω} (holds : P w) : P (tl.runWithin condition budget w) := by
    induction budget generalizing w with
    | zero => exact holds
    | succ budget ih =>
        rw [runWithin]
        split
        · exact holds
        cases tl.due? w with
        | none => exact holds
        | some due => exact ih (keeps.settle (keeps.setClock w due holds))
  exact within stepBudget holds

end Timeline

/-! ## The loops at a site -/

/-- What workers do keeps a property of the world. -/
structure Work.Keeps {ρ ω : Type} (work : Work ρ ω) (P : ω → Prop) : Prop where
  begin : ∀ (key : Key) (w : ω), P w → P (work.begin key w).2
  resume : ∀ (rest : ρ) (w : ω), P w → P (work.resume rest w).2

theorem Shift.step?_keeps {ρ ω : Type} {work : Work ρ ω} {P : ω → Prop} (keeps : work.Keeps P)
    {s t : Shift ρ} {now : Nat} {w w' : ω} (steps : s.step? work now w = some (t, w'))
    (holds : P w) : P w' := by
  cases moves_of_step? steps with
  | @asks worker rest =>
      obtain ⟨key, _, asks⟩ | ⟨_, asks⟩ := ask_cases { s with asking := rest } work now worker w
      · rw [asks]
        exact keeps.begin key w holds
      · rw [asks]
        exact holds
  | @goesOn job => exact keeps.resume job.rest w holds
  | runsOut | wakes => exact holds

/-- A division's watch reads and leaves the site alone, or its shift moves on. -/
theorem Division.step?_cases {kind : Kind} {d d' : Division kind} {site site' : Site}
    (steps : d.step? site = some (d', site')) :
    d'.shift.jobs = d.shift.jobs ∧ site' = site ∨
      d.shift.step? d.controller.work site.clock site = some (d'.shift, site') := by
  rw [Division.step?] at steps
  split at steps
  · cases steps
    exact .inl ⟨rfl, rfl⟩
  · obtain ⟨⟨shift, after⟩, works, same⟩ := Option.map_eq_some_iff.mp steps
    cases same
    exact .inr works

/-- The backend lands what is due, or one of the divisions moves on. -/
theorem Operator.step?_cases {o o' : Operator} (steps : o.step? = some o') :
    o' = { o with site := o.site.advanceTo o.site.clock } ∨
      (∃ plain site, o.plain.step? o.site = some (plain, site) ∧ o' = { o with plain, site }) ∨
      ∃ linked site, o.linked.step? o.site = some (linked, site) ∧
        o' = { o with linked, site } := by
  rw [Operator.step?] at steps
  split at steps
  · exact .inl (Option.some.inj steps).symm
  split at steps
  case h_1 plain site works => exact .inr (.inl ⟨plain, site, works, (Option.some.inj steps).symm⟩)
  case h_2 =>
    obtain ⟨⟨linked, site⟩, works, same⟩ := Option.map_eq_some_iff.mp steps
    exact .inr (.inr ⟨linked, site, works, same.symm⟩)

/-- The property survives accesses to the stores, events, and whatever becomes of the backend. -/
structure Site.Lasting (P : Site → Prop) : Prop where
  answer : ∀ {kind : Kind} (query : Query kind.Spec) (site : Site), P site →
    P (Site.answer kind query site).2
  note : ∀ (event : Event) (site : Site), P site → P (site.note event)
  backend : ∀ (site : Site) (clock : Nat) (backend : Backend), P site →
    P { site with clock, backend }

namespace Site.Lasting

variable {P : Site → Prop} {kind : Kind}

theorem carryOn (lasting : Lasting P) (budget : Nat)
    (p : Procedure kind.Spec (Except Fault Outcome)) {site : Site} (holds : P site) :
    P (Suspended.carryOn budget p site).2 := by
  induction p generalizing site with
  | done => exact holds
  | ask query _ ih => exact ih _ (lasting.answer query site holds)
  | report event _ ih => exact ih (lasting.note event site holds)
  | call c id _ resume ih =>
      rw [Suspended.carryOn]
      split
      · exact ih _ (lasting.backend site site.clock _ holds)
      · exact holds

theorem work (lasting : Lasting P) (c : Controller kind.Spec) : c.work.Keeps P where
  begin key _ holds := lasting.carryOn c.intervals.operationTimeout (c.reconcile key).run holds
  resume s site holds := by
    change P (s.goOn c.intervals.operationTimeout site).2
    rw [Suspended.goOn]
    split
    · exact lasting.carryOn _ _ (lasting.backend site site.clock _ holds)
    · exact lasting.carryOn _ _ holds

theorem division (lasting : Lasting P) {d d' : Division kind} {site site' : Site}
    (steps : d.step? site = some (d', site')) (holds : P site) : P site' := by
  obtain ⟨_, rfl⟩ | works := Division.step?_cases steps
  · exact holds
  · exact Shift.step?_keeps (lasting.work d.controller) works holds

theorem timeline (lasting : Lasting P) : Operator.timeline.Keeps fun o => P o.site where
  setClock o now holds := lasting.backend o.site now o.site.backend holds
  step {o o'} steps holds := by
    obtain rfl | ⟨_, _, works, rfl⟩ | ⟨_, _, works, rfl⟩ := Operator.step?_cases steps
    · exact lasting.backend o.site o.site.clock _ holds
    · exact lasting.division works holds
    · exact lasting.division works holds

theorem settle (lasting : Lasting P) {o : Operator} (holds : P o.site) : P o.settle.site :=
  lasting.timeline.settle (P := fun o : Operator => P o.site) holds

theorem advance (lasting : Lasting P) {o : Operator} (ms : Nat) (holds : P o.site) :
    P (o.advance ms).site :=
  lasting.timeline.advance (P := fun o : Operator => P o.site) ms holds

end Site.Lasting

namespace Operator

/-! ## What an operator is asked for -/

theorem apply_snd (o : Operator) (m : Manifest) :
    (o.apply m).2 = ({ o with site := (applyTo m o.site).2 } : Operator).settle := rfl

theorem edit_snd (o : Operator) (kind : Kind) (op : StoreOp kind.Spec) :
    (o.edit kind op).2 = ({ o with site := (o.site.perform kind op).2 } : Operator).settle := rfl

theorem deleteAll_snd (o : Operator) :
    o.deleteAll.2 = ({ o with site := (deleteAllFrom o.site).2 } : Operator).settle := rfl

/-- The operator after the time that an operation on the backend takes. -/
def atEnd (o : Operator) (op : BackendOp) : Operator := o.advance (o.site.backend.duration op)

theorem operate_snd (o : Operator) (op : BackendOp) :
    (o.operate op).2 =
      ({ o.atEnd op with
          site := { (o.atEnd op).site with
            backend := ((o.atEnd op).site.backend.carryOut (o.atEnd op).site.clock op).2 } } :
        Operator).settle := rfl

theorem forEach_keeps {α ε ω : Type} {act : α → ω → Except ε Unit × ω} {P : ω → Prop}
    (keeps : ∀ a w, P w → P (act a w).2) (items : List α) {w : ω} (holds : P w) :
    P (forEach act items w).2 := by
  induction items generalizing w with
  | nil => exact holds
  | cons a items ih =>
      have next := keeps a w holds
      rw [forEach]
      split
      case h_1 after done =>
        rw [done] at next
        exact ih next
      case h_2 fails =>
        rw [fails] at next
        exact next

theorem waitFor_keeps {P : Operator → Prop} (keeps : timeline.Keeps P) (condition : Operator → Bool)
    (limit : Nat) {o : Operator} (holds : P o) : P (o.waitFor condition limit).2 := by
  induction limit, o using waitFor.induct condition with
  | case1 limit o met =>
      rw [waitFor, if_pos met]
      exact holds
  | case2 limit o unmet enough ih =>
      rw [waitFor, if_neg unmet, dif_pos enough]
      exact ih (keeps.advance pollInterval holds)
  | case3 limit o unmet short =>
      rw [waitFor, if_neg unmet, dif_neg short]
      exact keeps.advance limit holds

theorem waitSettled_snd (o : Operator) (limit : Nat) :
    (o.waitSettled limit).2 = (o.waitFor isSettled limit).2 := by
  rw [waitSettled]
  split <;> (rename_i same; rw [same])

theorem waitRemoved_snd (o : Operator) (limit : Nat) :
    (o.waitRemoved limit).2 = (o.waitFor isEmpty limit).2 := by
  rw [waitRemoved]
  split <;> (rename_i same; rw [same])

/-- The operators that come about when one is started and asked for things, one after the other. -/
inductive Reached : Operator → Prop where
  | start {settings : Settings} {backend : Backend} {o : Operator}
      (starts : startWith settings backend = .ok o) : Reached o
  | apply {o : Operator} (reached : Reached o) (m : Manifest) : Reached (o.apply m).2
  | edit {o : Operator} (reached : Reached o) (kind : Kind) (op : StoreOp kind.Spec) :
      Reached (o.edit kind op).2
  | operate {o : Operator} (reached : Reached o) (op : BackendOp) : Reached (o.operate op).2
  | deleteAll {o : Operator} (reached : Reached o) : Reached o.deleteAll.2
  | advance {o : Operator} (reached : Reached o) (ms : Nat) : Reached (o.advance ms)
  | waitSettled {o : Operator} (reached : Reached o) (limit : Nat) : Reached (o.waitSettled limit).2
  | waitRemoved {o : Operator} (reached : Reached o) (limit : Nat) : Reached (o.waitRemoved limit).2
  | shutdown {o : Operator} (reached : Reached o) : Reached o.shutdown

end Operator

/-! ## Every record lies under its own key -/

namespace Site

/-- In both stores every record lies under its own key. -/
def Filed (site : Site) : Prop := ∀ kind, (site.store kind).Filed

variable {site : Site} {kind : Kind}

theorem store_setStore (site : Site) (kind : Kind) (s : Store kind.Spec) :
    (site.setStore kind s).store kind = s := by
  cases kind <;> rfl

theorem setStore_store (site : Site) (kind : Kind) :
    site.setStore kind (site.store kind) = site := by
  cases kind <;> rfl

theorem setStore_setStore (site : Site) (kind : Kind) (s t : Store kind.Spec) :
    (site.setStore kind s).setStore kind t = site.setStore kind t := by
  cases kind <;> rfl

theorem store_setStore_of_ne {other : Kind} (ne : other ≠ kind) (s : Store kind.Spec) :
    (site.setStore kind s).store other = site.store other := by
  cases kind <;> cases other <;> first | rfl | exact absurd rfl ne

theorem Filed.setStore (filed : site.Filed) {s : Store kind.Spec} (own : s.Filed) :
    (site.setStore kind s).Filed := by
  intro other
  by_cases same : other = kind
  · subst same
    rw [store_setStore]
    exact own
  · rw [store_setStore_of_ne same]
    exact filed other

theorem Filed.access {α : Type} (filed : site.Filed) {act : Store kind.Spec → α × Store kind.Spec}
    (keeps : (site.store kind).Filed → (act (site.store kind)).2.Filed) :
    (site.access kind act).2.Filed :=
  filed.setStore (keeps (filed kind))

theorem lasting_filed : Lasting Filed where
  note _ _ filed := filed
  backend _ _ _ filed := filed
  answer query site filed := by
    cases query with
    | read key => exact filed.access fun own => own.of_eq (Store.get_records _ key)
    | writeMetadata r => exact filed.access Store.writeWith_filed
    | writeStatus r => exact filed.access Store.writeWith_filed
    | readStatus key =>
        exact filed.setStore ((filed .plain).of_eq (Store.readStatus_records _ key))

theorem Filed.perform (filed : site.Filed) (op : StoreOp kind.Spec) :
    (site.perform kind op).2.Filed :=
  filed.setStore (Store.perform_lawful (filed kind) site.wall op).filed

end Site

namespace Operator

variable {o : Operator}

theorem applyEntry_filed (kind : Kind) (e : Entry kind.Spec) {site : Site} (filed : site.Filed) :
    (applyEntry kind e site).2.Filed := by
  have created : (site.access kind fun s => s.create e.toRecord).2.Filed :=
    filed.access fun own => (Store.create_lawful own e.toRecord).filed
  rw [applyEntry]
  split <;> rename_i same <;> rw [same] at created
  · exact created
  case h_2 key after =>
    have applied : (after.access kind fun s => s.applySpec key e.spec).2.Filed :=
      created.access fun own => (Store.applySpec_lawful own key e.spec).filed
    split <;> (rename_i same; rw [same] at applied; exact applied)
  · exact created

theorem applyTo_filed (m : Manifest) {site : Site} (filed : site.Filed) :
    (applyTo m site).2.Filed := by
  have plain := forEach_keeps (P := Site.Filed) (fun e _ => applyEntry_filed .plain e)
    m.plain (w := installBehaviours m site) filed
  rw [applyTo]
  split
  case h_1 same =>
    rw [same] at plain
    exact forEach_keeps (P := Site.Filed) (fun e _ => applyEntry_filed .linked e) m.linked plain
  · exact plain

theorem requestDeletion_filed (kind : Kind) (key : Key) {site : Site} (filed : site.Filed) :
    (requestDeletion kind key site).2.Filed := by
  have asked : (site.access kind fun s => s.requestDeletion site.wall key).2.Filed :=
    filed.access fun own => (Store.requestDeletion_lawful own site.wall key).filed
  rw [requestDeletion]
  split <;> (rename_i same; rw [same] at asked; exact asked)

theorem deleteAllFrom_filed {site : Site} (filed : site.Filed) : (deleteAllFrom site).2.Filed := by
  have linked := forEach_keeps (P := Site.Filed) (fun key _ => requestDeletion_filed .linked key)
    (site.linked.list.map Record.key) filed
  rw [deleteAllFrom]
  split
  case h_1 same =>
    rw [same] at linked
    exact forEach_keeps (P := Site.Filed) (fun key _ => requestDeletion_filed .plain key) _ linked
  · exact linked

theorem startWith_filed {settings : Settings} {backend : Backend}
    (starts : startWith settings backend = .ok o) : o.site.Filed := by
  simp only [startWith, bind, Except.bind, pure, Except.pure] at starts
  split at starts
  · cases starts
  split at starts
  · cases starts
  cases starts
  refine Site.lasting_filed.settle fun kind => ?_
  cases kind <;> exact Store.filed_empty

/-- Whatever was asked of an operator, every record lies under its own key. -/
theorem Reached.filed (reached : o.Reached) : o.site.Filed := by
  have lasts := Site.lasting_filed
  induction reached with
  | start starts => exact startWith_filed starts
  | apply _ m ih =>
      rw [apply_snd]
      exact lasts.settle (applyTo_filed m ih)
  | edit _ kind op ih =>
      rw [edit_snd]
      exact lasts.settle (ih.perform op)
  | operate _ op ih =>
      rw [operate_snd]
      exact lasts.settle (lasts.advance _ ih)
  | deleteAll _ ih =>
      rw [deleteAll_snd]
      exact lasts.settle (deleteAllFrom_filed ih)
  | advance _ ms ih => exact lasts.advance ms ih
  | waitSettled _ limit ih =>
      rw [waitSettled_snd]
      exact waitFor_keeps lasts.timeline isSettled limit ih
  | waitRemoved _ limit ih =>
      rw [waitRemoved_snd]
      exact waitFor_keeps lasts.timeline isEmpty limit ih
  | shutdown _ ih => exact lasts.timeline.runUntil hasEnded (lasts.settle ih)

end Operator

end Steward
