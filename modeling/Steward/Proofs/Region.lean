import Steward.Proofs.Completion
import Steward.Proofs.Scope

/-!
# Regions of a site

A reconcile works in a small region of a site: one record, the records that it refers to, and one
resource of the backend.  What it is answered depends on that region alone, and it changes nothing
outside, also in time: a backend answers at once, or else it completes nothing on its own.  What a
backend knows is looked at as of the next instant at which it is called, when everything that is due
has landed.
-/

namespace Steward

variable {σ : Type}

/-! ## One record of a store -/

namespace Store

variable {s t : Store σ} {operation : String} {incoming : Record σ} {change : Record σ → Record σ}

/-- A write changes no record but the one that it names. -/
theorem writeWith_of_ne (filed : s.Filed) (keeps : ∀ r, (change r).key = r.key) {key : Key}
    (ne : key ≠ incoming.key) :
    (s.writeWith operation incoming change).2.records[key]? = s.records[key]? := by
  obtain same | ⟨_, own, _⟩ := writeWith_lookup filed operation incoming change keeps key
  · exact same
  · exact absurd own.symm ne

/-- What comes of a write depends on the record that it names. -/
theorem writeWith_congr (operation : String) (filed : t.Filed) (sound : s.faults = 0)
    (sound' : t.faults = 0) (keeps : ∀ r, (change r).key = r.key)
    (same : s.records[incoming.key]? = t.records[incoming.key]?) :
    (s.writeWith operation incoming change).1 = (t.writeWith operation incoming change).1 ∧
      (s.writeWith operation incoming change).2.records[incoming.key]? =
        (t.writeWith operation incoming change).2.records[incoming.key]? := by
  cases found : t.records[incoming.key]? with
  | none =>
      have found' := same.trans found
      simp only [writeWith, guarded_of_sound sound, guarded_of_sound sound', withRecord, found,
        found', and_self]
  | some stored =>
      have found' := same.trans found
      have own : (bumped (change stored)).key = incoming.key :=
        (keeps stored).trans (filed _ _ found)
      by_cases current : incoming.metadata.resourceVersion = stored.metadata.resourceVersion
      · rw [writeWith_of_current sound incoming found' current,
          writeWith_of_current sound' incoming found current]
        refine ⟨rfl, ?_⟩
        split
        · simp only [drop, Std.ExtTreeMap.getElem?_erase_self]
        · simp only [put, own, Std.ExtTreeMap.getElem?_insert_self]
      · simp only [writeWith, guarded_of_sound sound, guarded_of_sound sound', withRecord, found,
          found', ne_eq, current, not_false_eq_true, if_true, and_self]

end Store

/-! ## One resource of a backend -/

namespace Backend

variable {b b' : Backend} {now : Nat} {id other : String}

/-- The backend answers at once, or it completes nothing on its own: it has at most one of the two
options. -/
def Simple (b : Backend) : Prop := b.latency = 0 ∨ b.completionDelay = none ∧ b.timers = []

theorem foldl_complete_keeps (timers : List Completion) (b : Backend) :
    (timers.foldl (fun b timer => (b.complete timer.id).2) b).timers = b.timers ∧
      (timers.foldl (fun b timer => (b.complete timer.id).2) b).completionDelay =
        b.completionDelay ∧
      (timers.foldl (fun b timer => (b.complete timer.id).2) b).latency = b.latency := by
  induction timers generalizing b with
  | nil => exact ⟨rfl, rfl, rfl⟩
  | cons timer timers ih =>
      obtain ⟨left, delay, latency⟩ := ih (b.complete timer.id).2
      obtain ⟨left', delay'⟩ := b.complete_snd timer.id
      refine ⟨left.trans left', delay.trans delay', latency.trans ?_⟩
      rw [complete]
      split <;> rfl

theorem latency_fire (b : Backend) (now : Nat) : (b.fire now).latency = b.latency := by
  obtain ⟨due, _, _, _, _, fired⟩ := Timed.exists_order_of_fire b now
  rw [fired]
  exact (foldl_complete_keeps due _).2.2

theorem completionDelay_fire (b : Backend) (now : Nat) :
    (b.fire now).completionDelay = b.completionDelay := by
  obtain ⟨due, _, _, _, _, fired⟩ := Timed.exists_order_of_fire b now
  rw [fired]
  exact (foldl_complete_keeps due _).2.1

/-- What is left of the timers is not due yet. -/
theorem not_due_of_fire (b : Backend) (now : Nat) :
    ∀ timer ∈ (b.fire now).timers, now < timer.due := by
  obtain ⟨due, _, _, _, later, fired⟩ := Timed.exists_order_of_fire b now
  rw [fired, (foldl_complete_keeps due _).1]
  exact later

theorem fire_fire (b : Backend) (now : Nat) : (b.fire now).fire now = b.fire now :=
  fire_of_not_due (b.not_due_of_fire now)

/-- While it answers a call, a simple backend lands nothing that was not due before. -/
theorem Simple.fire_add (simple : b.Simple) (now : Nat) {ms : Nat} (within : ms ≤ b.latency) :
    b.fire (now + ms) = b.fire now := by
  obtain prompt | ⟨_, idle⟩ := simple
  · rw [prompt, Nat.le_zero] at within
    rw [within, Nat.add_zero]
  · rw [fire_of_timers_eq_nil idle, fire_of_timers_eq_nil idle]

theorem Simple.fire (simple : b.Simple) (now : Nat) : (b.fire now).Simple := by
  obtain prompt | ⟨manual, idle⟩ := simple
  · exact .inl ((b.latency_fire now).trans prompt)
  · rw [fire_of_timers_eq_nil idle]
    exact .inr ⟨manual, idle⟩

/-- The resource after a call and all that lands at once. -/
def Resource.after (r : Resource) (delay : Option Nat) (request : Request) : Resource :=
  if delay = some 0 ∧ (r.select request).isAsync then (r.receive request).2.complete.2
  else (r.receive request).2

theorem resources_set (b : Backend) (id other : String) (r : Resource) :
    (b.set id r).resources[other]? = if id = other then some r else b.resources[other]? := by
  rw [set, Std.ExtTreeMap.getElem?_insert]
  simp only [Std.LawfulEqCmp.compare_eq_iff_eq]

theorem resources_complete (b : Backend) (id other : String) {r : Resource}
    (found : b.resources[id]? = some r) :
    (b.complete id).2.resources[other]? =
      if id = other then some r.complete.2 else b.resources[other]? := by
  rw [complete, found]
  exact b.resources_set id other r.complete.2

/-- When the last timer is the only one that is due, it alone runs out. -/
theorem fire_last (idle : ∀ timer ∈ b.timers, now < timer.due) (id : String) :
    ({ b with timers := b.timers ++ [⟨now, id⟩] } : Backend).fire now = (b.complete id).2 := by
  have later : b.timers.filter (fun timer => timer.due ≤ now) = [] := by simpa using idle
  have kept : b.timers.filter (not ∘ fun timer => decide (timer.due ≤ now)) = b.timers := by
    simpa using idle
  have due : (b.timers ++ [(⟨now, id⟩ : Completion)]).filter (fun timer => timer.due ≤ now) =
      [⟨now, id⟩] := by
    rw [List.filter_append, later, List.nil_append]
    simp
  have left : (b.timers ++ [(⟨now, id⟩ : Completion)]).filter
      (not ∘ fun timer => decide (timer.due ≤ now)) = b.timers := by
    rw [List.filter_append, kept]
    simp
  simp only [fire, List.partition_eq_filter_filter, due, left, List.mergeSort_singleton,
    List.foldl_cons, List.foldl_nil]

/-- A call that comes when nothing is due concerns one resource, also by what it sets off. -/
theorem resources_receive (idle : ∀ timer ∈ b.timers, now < timer.due) (id other : String)
    (request : Request) :
    ((b.receive now id request).2.fire now).resources[other]? =
      if id = other then some ((b.resource id).after b.completionDelay request)
      else b.resources[other]? := by
  generalize answered : (b.resource id).receive request = answer
  have unset : (b.set id answer.2).completionDelay = b.completionDelay := rfl
  have plain : ((b.set id answer.2).fire now).resources[other]? =
      if id = other then some answer.2 else b.resources[other]? := by
    rw [fire_of_not_due (b := b.set id answer.2) idle]
    exact b.resources_set id other answer.2
  simp only [Resource.after, receive, answered, unset]
  split
  case h_1 delay delayed =>
    by_cases accepted : ((b.resource id).select request).isAsync
    · simp only [accepted, if_true, and_true, delayed, Option.some.injEq]
      by_cases prompt : delay = 0
      · have last := fire_last (b := b.set id answer.2) idle id
        rw [unset, delayed, prompt] at last
        rw [prompt, Nat.add_zero, last, if_pos rfl, resources_complete (r := answer.2)]
        · rw [resources_set]
          split <;> rfl
        · rw [resources_set, if_pos rfl]
      · rw [if_neg prompt, fire_of_not_due]
        · exact b.resources_set id other answer.2
        · refine List.forall_mem_append.mpr ⟨idle, List.forall_mem_singleton.mpr ?_⟩
          exact Nat.lt_add_of_pos_right (Nat.pos_of_ne_zero prompt)
    · simp only [accepted, Bool.false_eq_true, if_false, and_false]
      exact plain
  case h_2 manual =>
    simp only [manual, reduceCtorEq, false_and, if_false]
    exact plain

/-- How a call is answered depends on the resource. -/
theorem perform_congr (same : b.resource id = b'.resource id) (now now' : Nat) (call : Call) :
    (b.perform now id call).1 = (b'.perform now' id call).1 := by
  cases call <;>
    simp only [perform, create, update, verify, delete, receive_fst, same]

theorem perform_snd (b : Backend) (now : Nat) (id : String) (call : Call) :
    (b.perform now id call).2 = (b.receive now id (Bench.request call)).2 := by
  cases call <;> rfl

theorem latency_receive (b : Backend) (now : Nat) (id : String) (request : Request) :
    (b.receive now id request).2.latency = b.latency := by
  simp only [receive]
  split
  · split <;> rfl
  · rfl

theorem Simple.receive (simple : b.Simple) (now : Nat) (id : String) (request : Request) :
    (b.receive now id request).2.Simple := by
  obtain prompt | ⟨manual, idle⟩ := simple
  · exact .inl ((b.latency_receive now id request).trans prompt)
  · rw [receive_of_manual manual]
    exact .inr ⟨manual, idle⟩

/-- A backend that was built with one of the two options, or with neither, stays simple whatever is
asked of it. -/
theorem Simple.carryOut (simple : b.Simple) (now : Nat) (op : BackendOp) :
    (b.carryOut now op).2.Simple := by
  cases op with
  | call call id =>
      rw [carryOut_call]
      exact simple.receive now id _
  | clearBehaviours id =>
      rw [Backend.carryOut, clearBehaviours]
      split <;> exact simple
  | complete id =>
      change (b.complete id).2.Simple
      rw [complete]
      split <;> exact simple
  | behave => exact simple
  | clear => exact simple
  | completeAll => exact simple
  | inspect => exact simple

end Backend

/-! ## A site -/

namespace Site

variable {kind : Kind} {site : Site}

/-- No store fails, every record lies under its own key, and the backend is simple. -/
structure Calm (site : Site) : Prop where
  filed : site.Filed
  sound : ∀ kind, (site.store kind).faults = 0
  simple : site.backend.Simple

/-- What the backend knows about a resource once everything that is due has landed. -/
def landed? (site : Site) (id : String) : Option Backend.Resource :=
  (site.backend.fire site.clock).resources[id]?

/-- Waits for the backend to answer, as long as the budget allows. -/
def await (site : Site) (budget : Nat) (call : Call) (id : String) : call.Ending × Site :=
  if site.backend.latency ≤ budget then
    let (answer, site) := (site.advance site.backend.latency).call call id
    (some answer, site)
  else (none, site.advance budget)

theorem store_advance (site : Site) (ms : Nat) (kind : Kind) :
    (site.advance ms).store kind = site.store kind := by
  cases kind <;> rfl

theorem store_call (site : Site) (call : Call) (id : String) (kind : Kind) :
    (site.call call id).2.store kind = site.store kind := by
  cases kind <;> rfl

theorem Calm.advance (calm : site.Calm) (ms : Nat) : (site.advance ms).Calm where
  filed kind := by
    rw [store_advance]
    exact calm.filed kind
  sound kind := by
    rw [store_advance]
    exact calm.sound kind
  simple := calm.simple.fire _

theorem Calm.call (calm : site.Calm) (call : Call) (id : String) : (site.call call id).2.Calm where
  filed kind := by
    rw [store_call]
    exact calm.filed kind
  sound kind := by
    rw [store_call]
    exact calm.sound kind
  simple := by
    change (site.backend.perform site.clock id call).2.Simple
    rw [Backend.perform_snd]
    exact calm.simple.receive site.clock id _

theorem Calm.setStore (calm : site.Calm) {s : Store kind.Spec} (filed : s.Filed)
    (sound : s.faults = 0) : (site.setStore kind s).Calm where
  filed := calm.filed.setStore filed
  sound other := by
    by_cases same : other = kind
    · subst same
      rw [store_setStore]
      exact sound
    · rw [store_setStore_of_ne same]
      exact calm.sound other
  simple := by cases kind <;> exact calm.simple

/-- What is due lands in time for the call, and nothing else does. -/
theorem Calm.landed?_advance (calm : site.Calm) {ms : Nat} (within : ms ≤ site.backend.latency)
    (id : String) : (site.advance ms).landed? id = site.landed? id := by
  change ((site.backend.fire (site.clock + ms)).fire (site.clock + ms)).resources[id]? = _
  rw [Backend.fire_fire, calm.simple.fire_add site.clock within]
  rfl

/-- After a wait everything that is due has landed. -/
theorem resources_advance (site : Site) (ms : Nat) (id : String) :
    (site.advance ms).backend.resources[id]? = (site.advance ms).landed? id :=
  congrArg (fun b : Backend => b.resources[id]?) (Backend.fire_fire _ _).symm

/-- A call after a wait concerns one resource. -/
theorem landed?_call (site : Site) (ms : Nat) (call : Call) (id other : String) :
    ((site.advance ms).call call id).2.landed? other =
      if id = other then
        some (((site.advance ms).backend.resource id).after
          (site.advance ms).backend.completionDelay (Bench.request call))
      else (site.advance ms).landed? other := by
  have idle := site.backend.not_due_of_fire (site.clock + ms)
  rw [← resources_advance]
  change (((site.backend.fire (site.clock + ms)).perform (site.clock + ms) id call).2.fire
    (site.clock + ms)).resources[other]? = _
  rw [Backend.perform_snd, Backend.resources_receive idle]
  rfl

end Site

/-! ## Regions -/

/-- One record of a kind, the plain records that it refers to, and one resource. -/
structure Region (kind : Kind) where
  key : Key
  refs : Key → Prop
  id : String

namespace Region

variable {kind : Kind} {d : Region kind} {site other after : Site}

/-- What a reconcile may ask and call in the region. -/
def scope (d : Region kind) : Scope kind.Spec where
  asks
    | .read key => key = d.key
    | .writeMetadata r | .writeStatus r => r.key = d.key
    | .readStatus key => d.refs key
  calls id := id = d.id

/-- The sites show the same within the region. -/
structure Agree (d : Region kind) (site other : Site) : Prop where
  record : (site.store kind).records[d.key]? = (other.store kind).records[d.key]?
  refs : ∀ key : Key, d.refs key → site.plain.records[key]? = other.plain.records[key]?
  resource : site.landed? d.id = other.landed? d.id
  latency : site.backend.latency = other.backend.latency
  delay : site.backend.completionDelay = other.backend.completionDelay

/-- Nothing changed outside the region. -/
structure Bounds (d : Region kind) (site after : Site) : Prop where
  calm : after.Calm
  records : ∀ (other : Kind) (key : Key), (other = kind → key ≠ d.key) →
    (after.store other).records[key]? = (site.store other).records[key]?
  resources : ∀ id, id ≠ d.id → after.landed? id = site.landed? id
  latency : after.backend.latency = site.backend.latency
  delay : after.backend.completionDelay = site.backend.completionDelay

theorem Bounds.refl (calm : site.Calm) : d.Bounds site site :=
  ⟨calm, fun _ _ _ => rfl, fun _ _ => rfl, rfl, rfl⟩

theorem Bounds.trans (first : d.Bounds site other) (next : d.Bounds other after) :
    d.Bounds site after where
  calm := next.calm
  records k key away := (next.records k key away).trans (first.records k key away)
  resources id ne := (next.resources id ne).trans (first.resources id ne)
  latency := next.latency.trans first.latency
  delay := next.delay.trans first.delay

/-- Neither region has the other's record or resource, nor refers to the other's record. -/
structure Apart {k : Kind} (d : Region kind) (e : Region k) : Prop where
  record : kind = k → d.key ≠ e.key
  refs : .plain = k → ∀ key, d.refs key → key ≠ e.key
  refs' : .plain = kind → ∀ key, e.refs key → key ≠ d.key
  id : d.id ≠ e.id

theorem Apart.symm {k : Kind} {e : Region k} (apart : d.Apart e) : e.Apart d where
  record same := Ne.symm (apart.record same.symm)
  refs := apart.refs'
  refs' := apart.refs
  id := Ne.symm apart.id

/-- A site shows the same in a region that is apart from what changed. -/
theorem Bounds.agree {k : Kind} {e : Region k} (bounds : e.Bounds site after)
    (apart : d.Apart e) : d.Agree after site where
  record := bounds.records kind d.key apart.record
  refs key named := bounds.records .plain key fun plain => apart.refs plain key named
  resource := bounds.resources d.id apart.id
  latency := bounds.latency
  delay := bounds.delay

/-- Two changes in regions that are apart lead to the same site in either order, if each leads to
the same in its own region as it did before the other. -/
theorem Bounds.diamond {k : Kind} {e : Region k} {one two oneTwo twoOne : Site}
    (apart : d.Apart e) (first : d.Bounds site one) (second : e.Bounds site two)
    (then_second : e.Bounds one oneTwo) (then_first : d.Bounds two twoOne)
    (same_second : e.Agree oneTwo two) (same_first : d.Agree twoOne one) :
    (∀ (other : Kind) (key : Key), (oneTwo.store other).records[key]? =
      (twoOne.store other).records[key]?) ∧
    ∀ id, oneTwo.landed? id = twoOne.landed? id := by
  constructor
  · intro other key
    by_cases own : other = k ∧ key = e.key
    · obtain ⟨rfl, rfl⟩ := own
      have kept := then_first.records other e.key fun same => Ne.symm (apart.record same.symm)
      exact same_second.record.trans kept.symm
    by_cases own' : other = kind ∧ key = d.key
    · obtain ⟨rfl, rfl⟩ := own'
      exact (then_second.records other d.key apart.record).trans same_first.record.symm
    · have away : other = k → key ≠ e.key := fun same here => own ⟨same, here⟩
      have away' : other = kind → key ≠ d.key := fun same here => own' ⟨same, here⟩
      calc (oneTwo.store other).records[key]?
        _ = (one.store other).records[key]? := then_second.records other key away
        _ = (site.store other).records[key]? := first.records other key away'
        _ = (two.store other).records[key]? := (second.records other key away).symm
        _ = (twoOne.store other).records[key]? := (then_first.records other key away').symm
  · intro id
    by_cases own : id = e.id
    · subst own
      exact same_second.resource.trans (then_first.resources e.id (Ne.symm apart.id)).symm
    by_cases own' : id = d.id
    · subst own'
      exact (then_second.resources d.id apart.id).trans same_first.resource.symm
    · calc oneTwo.landed? id
        _ = one.landed? id := then_second.resources id own
        _ = site.landed? id := first.resources id own'
        _ = two.landed? id := (second.resources id own).symm
        _ = twoOne.landed? id := (then_first.resources id own').symm

/-! ## Queries and events -/

theorem bounds_note (calm : site.Calm) (event : Event) : d.Bounds site (site.note event) where
  calm :=
    { filed := fun kind => by cases kind <;> exact calm.filed _
      sound := fun kind => by
        cases kind with
        | plain => exact calm.sound .plain
        | linked => exact calm.sound .linked
      simple := calm.simple }
  records other key _ := by cases other <;> rfl
  resources _ _ := rfl
  latency := rfl
  delay := rfl

theorem Agree.note (agree : d.Agree site other) (event : Event) :
    d.Agree (site.note event) (other.note event) where
  record := by cases kind <;> exact agree.record
  refs := agree.refs
  resource := agree.resource
  latency := agree.latency
  delay := agree.delay

theorem landed?_setStore (site : Site) (s : Store kind.Spec) (id : String) :
    (site.setStore kind s).landed? id = site.landed? id := by
  cases kind <;> rfl

theorem backend_setStore (site : Site) (s : Store kind.Spec) :
    (site.setStore kind s).backend = site.backend := by
  cases kind <;> rfl

theorem bounds_setStore (calm : site.Calm) {s : Store kind.Spec} (filed : s.Filed)
    (sound : s.faults = 0)
    (others : ∀ key : Key, key ≠ d.key → s.records[key]? = (site.store kind).records[key]?) :
    d.Bounds site (site.setStore kind s) where
  calm := calm.setStore filed sound
  records k key away := by
    by_cases same : k = kind
    · subst same
      rw [Site.store_setStore]
      exact others key (away rfl)
    · rw [Site.store_setStore_of_ne same]
  resources id _ := landed?_setStore site s id
  latency := by rw [backend_setStore]
  delay := by rw [backend_setStore]

/-- Writes to the one record that come out the same keep sites in agreement. -/
theorem Agree.setStore (agree : d.Agree site other) {s t : Store kind.Spec}
    (own : s.records[d.key]? = t.records[d.key]?)
    (left : d.Bounds site (site.setStore kind s)) (right : d.Bounds other (other.setStore kind t)) :
    d.Agree (site.setStore kind s) (other.setStore kind t) where
  record := by
    rw [Site.store_setStore, Site.store_setStore]
    exact own
  refs key named := by
    by_cases same : Kind.plain = kind ∧ key = d.key
    · obtain ⟨rfl, rfl⟩ := same
      exact own
    · have away : Kind.plain = kind → key ≠ d.key := fun plain here => same ⟨plain, here⟩
      exact (left.records .plain key away).trans
        ((agree.refs key named).trans (right.records .plain key away).symm)
  resource := by
    rw [landed?_setStore, landed?_setStore]
    exact agree.resource
  latency := by
    rw [backend_setStore, backend_setStore]
    exact agree.latency
  delay := by
    rw [backend_setStore, backend_setStore]
    exact agree.delay

/-- A write changes nothing outside the region. -/
theorem bounds_writeWith (calm : site.Calm) (operation : String) {incoming : Record kind.Spec}
    (own : incoming.key = d.key) {change : Record kind.Spec → Record kind.Spec}
    (keeps : ∀ r, (change r).key = r.key) :
    d.Bounds site
      (site.setStore kind ((site.store kind).writeWith operation incoming change).2) :=
  bounds_setStore calm (Store.writeWith_filed (calm.filed kind))
    (Store.writeWith_sound (calm.sound kind) _ _ _) fun _ ne =>
      Store.writeWith_of_ne (calm.filed kind) keeps (own.symm ▸ ne)

theorem Agree.writeWith (agree : d.Agree site other) (calm : site.Calm) (calm' : other.Calm)
    (operation : String) {incoming : Record kind.Spec} (own : incoming.key = d.key)
    {change : Record kind.Spec → Record kind.Spec} (keeps : ∀ r, (change r).key = r.key) :
    ((site.store kind).writeWith operation incoming change).1 =
        ((other.store kind).writeWith operation incoming change).1 ∧
      d.Agree (site.setStore kind ((site.store kind).writeWith operation incoming change).2)
        (other.setStore kind ((other.store kind).writeWith operation incoming change).2) := by
  have record := agree.record
  rw [← own] at record
  obtain ⟨answer, after⟩ := Store.writeWith_congr operation (calm'.filed kind) (calm.sound kind)
    (calm'.sound kind) keeps record
  rw [own] at after
  exact ⟨answer, agree.setStore after (bounds_writeWith calm operation own keeps)
    (bounds_writeWith calm' operation own keeps)⟩

theorem bounds_answer (calm : site.Calm) {query : Query kind.Spec} (asks : d.scope.asks query) :
    d.Bounds site (Site.answer kind query site).2 := by
  cases query with
  | read key =>
      rw [Site.answer_read (calm.sound kind)]
      exact .refl calm
  | writeMetadata r => exact bounds_writeWith calm "update" asks fun _ => rfl
  | writeStatus r => exact bounds_writeWith calm "update_status" asks fun _ => rfl
  | readStatus key =>
      rw [Site.answer_readStatus (calm.sound .plain)]
      exact .refl calm

/-- What a query in the region is answered depends on the region. -/
theorem Agree.answer (agree : d.Agree site other) (calm : site.Calm) (calm' : other.Calm)
    {query : Query kind.Spec} (asks : d.scope.asks query) :
    (Site.answer kind query site).1 = (Site.answer kind query other).1 ∧
      d.Agree (Site.answer kind query site).2 (Site.answer kind query other).2 := by
  cases query with
  | read key =>
      obtain rfl : key = d.key := asks
      rw [Site.answer_read (calm.sound kind), Site.answer_read (calm'.sound kind), agree.record]
      exact ⟨rfl, agree⟩
  | writeMetadata r => exact agree.writeWith calm calm' "update" asks fun _ => rfl
  | writeStatus r => exact agree.writeWith calm calm' "update_status" asks fun _ => rfl
  | readStatus key =>
      rw [Site.answer_readStatus (calm.sound .plain), Site.answer_readStatus (calm'.sound .plain),
        agree.refs key asks]
      exact ⟨rfl, agree⟩

/-! ## Calls -/

theorem bounds_advance (calm : site.Calm) {ms : Nat} (within : ms ≤ site.backend.latency) :
    d.Bounds site (site.advance ms) where
  calm := calm.advance ms
  records k key _ := by rw [Site.store_advance]
  resources id _ := calm.landed?_advance within id
  latency := site.backend.latency_fire _
  delay := site.backend.completionDelay_fire _

theorem Agree.advance (agree : d.Agree site other) (calm : site.Calm) (calm' : other.Calm)
    {ms : Nat} (within : ms ≤ site.backend.latency) :
    d.Agree (site.advance ms) (other.advance ms) where
  record := by
    rw [Site.store_advance, Site.store_advance]
    exact agree.record
  refs := agree.refs
  resource := by
    rw [calm.landed?_advance within, calm'.landed?_advance (agree.latency ▸ within)]
    exact agree.resource
  latency :=
    (site.backend.latency_fire _).trans (agree.latency.trans (other.backend.latency_fire _).symm)
  delay := (site.backend.completionDelay_fire _).trans
    (agree.delay.trans (other.backend.completionDelay_fire _).symm)

theorem bounds_call (calm : site.Calm) (ms : Nat) (call : Call) :
    d.Bounds (site.advance ms) ((site.advance ms).call call d.id).2 where
  calm := (calm.advance ms).call call d.id
  records k key _ := by rw [Site.store_call]
  resources id ne := by rw [Site.landed?_call, if_neg (Ne.symm ne)]
  latency := by
    change ((site.advance ms).backend.perform _ d.id call).2.latency = _
    rw [Backend.perform_snd, Backend.latency_receive]
  delay := by
    change ((site.advance ms).backend.perform _ d.id call).2.completionDelay = _
    rw [Backend.perform_snd, Backend.completionDelay_receive]

/-- How a call for the resource is answered depends on the region. -/
theorem Agree.call {ms ms' : Nat} (agree : d.Agree (site.advance ms) (other.advance ms'))
    (call : Call) :
    ((site.advance ms).call call d.id).1 = ((other.advance ms').call call d.id).1 ∧
      d.Agree ((site.advance ms).call call d.id).2 ((other.advance ms').call call d.id).2 := by
  have resource : (site.advance ms).backend.resource d.id =
      (other.advance ms').backend.resource d.id := by
    rw [Backend.resource, Backend.resource, Site.resources_advance, Site.resources_advance,
      agree.resource]
  refine ⟨Backend.perform_congr resource _ _ call, ?_, agree.refs, ?_, ?_, ?_⟩
  · rw [Site.store_call, Site.store_call]
    exact agree.record
  · rw [Site.landed?_call, Site.landed?_call, if_pos rfl, if_pos rfl, resource, agree.delay]
  · change ((site.advance ms).backend.perform _ d.id call).2.latency =
      ((other.advance ms').backend.perform _ d.id call).2.latency
    rw [Backend.perform_snd, Backend.perform_snd, Backend.latency_receive, Backend.latency_receive]
    exact agree.latency
  · change ((site.advance ms).backend.perform _ d.id call).2.completionDelay =
      ((other.advance ms').backend.perform _ d.id call).2.completionDelay
    rw [Backend.perform_snd, Backend.perform_snd, Backend.completionDelay_receive,
      Backend.completionDelay_receive]
    exact agree.delay

/-- A call that is waited for changes nothing outside the region, answered or not. -/
theorem bounds_await (calm : site.Calm) (budget : Nat) (call : Call) :
    d.Bounds site (site.await budget call d.id).2 := by
  rw [Site.await]
  split
  case isTrue =>
    exact (bounds_advance calm (Nat.le_refl _)).trans (bounds_call calm _ call)
  case isFalse overruns => exact bounds_advance calm (Nat.le_of_lt (Nat.lt_of_not_le overruns))

theorem Agree.await (agree : d.Agree site other) (calm : site.Calm) (calm' : other.Calm)
    (budget : Nat) (call : Call) :
    (site.await budget call d.id).1 = (other.await budget call d.id).1 ∧
      d.Agree (site.await budget call d.id).2 (other.await budget call d.id).2 := by
  rw [Site.await, Site.await, ← agree.latency]
  split
  case isTrue =>
    obtain ⟨answer, after⟩ := (agree.advance calm calm' (Nat.le_refl _)).call call
    exact ⟨congrArg some answer, after⟩
  case isFalse overruns =>
    exact ⟨rfl, agree.advance calm calm' (Nat.le_of_lt (Nat.lt_of_not_le overruns))⟩

end Region

end Steward
