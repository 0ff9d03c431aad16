import Steward.Proofs.Manifest
import Steward.Proofs.Operator
import Steward.Proofs.Parked

/-!
# What applying a manifest leads to

A manifest may be applied to an operator in any state.  When no store fails and none of the loops
moves in between, every entry ends up with a record under its key that has the entry's
specification, and nothing else in the stores changes.  A record that is filed for the entry gets
the entry's annotations; one that was there before keeps its own, so annotations that a manifest
adds to or changes in a record do not arrive.  To apply the manifest once more changes no key, no
specification and no annotation; it appends the same behaviours again, and since the last one that
covers a call decides, none of them comes to decide another call than before.
-/

namespace Steward

variable {σ : Type}

/-! ## One entry -/

namespace Store

variable {s : Store σ} {stored : Record σ} {key : Key}

/-- The record that a change of the specification makes of a stored one. -/
def respecified (spec : σ) (stored : Record σ) : Record σ :=
  bumped
    { stored with
      spec
      metadata := { stored.metadata with generation := Counter.next stored.metadata.generation } }

theorem applySpec_of_stored (sound : s.faults = 0) (found : s.records[key]? = some stored)
    (spec : σ) :
    s.applySpec key spec =
      (.ok (respecified spec stored), s.put .modified (respecified spec stored)) := by
  rw [applySpec, guarded_of_sound sound, withRecord, found]
  rfl

end Store

/-- The record under the key of an entry after the entry was applied, by what was there before. -/
def Entry.applied (e : Entry σ) : Option (Record σ) → Record σ
  | none => Store.fresh e.toRecord
  | some stored => Store.respecified e.spec stored

namespace Operator

variable {kind : Kind} {site : Site}

/-- The records under all keys after an entry was applied. -/
def withEntry (records : KeyMap (Record σ)) (e : Entry σ) : KeyMap (Record σ) :=
  records.insert e.key (e.applied records[e.key]?)

/-- A store in which every record lies under its own key and of which no access fails. -/
structure Ready (s : Store σ) : Prop where
  filed : s.Filed
  sound : s.faults = 0

theorem applied_key {s : Store σ} (filed : s.Filed) (e : Entry σ) :
    (e.applied s.records[e.key]?).key = e.key := by
  cases found : s.records[e.key]? with
  | none => rfl
  | some stored => exact filed e.key stored found

/-- What is filed for an entry is what becomes of the record under its key. -/
theorem Ready.put {s : Store σ} (ready : Ready s) (change : ChangeKind) (e : Entry σ) :
    Ready (s.put change (e.applied s.records[e.key]?)) ∧
      (s.put change (e.applied s.records[e.key]?)).records = withEntry s.records e := by
  refine ⟨⟨ready.filed.of_insert rfl, ready.sound⟩, ?_⟩
  rw [withEntry, Store.put, applied_key ready.filed]

/-- An entry is applied to the store of its kind. -/
theorem applyEntry_ready (ready : Ready (site.store kind)) (e : Entry kind.Spec) :
    ∃ s, applyEntry kind e site = (.ok (), site.setStore kind s) ∧ Ready s ∧
      s.records = withEntry (site.store kind).records e := by
  cases found : (site.store kind).records[e.key]? with
  | none =>
      have created := Store.create_of_absent (r := e.toRecord) ready.sound found
      have filed := ready.put .added e
      rw [found] at filed
      refine ⟨_, ?_, filed⟩
      rw [applyEntry, Site.access, created]
      rfl
  | some stored =>
      have refused := Store.create_of_stored (r := e.toRecord) ready.sound found
      have applied := Store.applySpec_of_stored ready.sound found e.spec
      have filed := ready.put .modified e
      rw [found] at filed
      have first : (site.access kind fun s => s.create e.toRecord) =
          (.error (.alreadyExists e.key), site) := by
        rw [Site.access, refused]
        exact congrArg _ (site.setStore_store kind)
      have second : (site.access kind fun s => s.applySpec e.key e.spec) =
          (.ok (Store.respecified e.spec stored), site.setStore kind
            ((site.store kind).put .modified (Store.respecified e.spec stored))) := by
        rw [Site.access, applied]
      refine ⟨_, ?_, filed⟩
      rw [applyEntry, first]
      simp only
      rw [second]
      rfl

/-- The records under all keys after entries were applied, one after the other. -/
def withEntries (records : KeyMap (Record σ)) (entries : List (Entry σ)) : KeyMap (Record σ) :=
  entries.foldl withEntry records

theorem forEach_applyEntry (kind : Kind) (entries : List (Entry kind.Spec)) {site : Site}
    (ready : Ready (site.store kind)) :
    ∃ s, forEach (applyEntry kind) entries site = (.ok (), site.setStore kind s) ∧ Ready s ∧
      s.records = withEntries (site.store kind).records entries := by
  induction entries generalizing site with
  | nil => exact ⟨site.store kind, by rw [Site.setStore_store]; rfl, ready, rfl⟩
  | cons e entries ih =>
      obtain ⟨s, applied, next, records⟩ := applyEntry_ready ready e
      rw [← site.store_setStore kind s] at next
      obtain ⟨t, others, last, all⟩ := ih next
      refine ⟨t, ?_, last, ?_⟩
      · rw [forEach, applied]
        simp only
        rw [others, Site.setStore_setStore]
      · rw [all, Site.store_setStore, records]
        rfl

/-! ## Entries of different keys -/

section

variable {records : KeyMap (Record σ)} {entries : List (Entry σ)} {e : Entry σ} {key : Key}

theorem withEntry_self (records : KeyMap (Record σ)) (e : Entry σ) :
    (withEntry records e)[e.key]? = some (e.applied records[e.key]?) :=
  Std.ExtTreeMap.getElem?_insert_self

theorem withEntry_of_ne (other : e.key ≠ key) : (withEntry records e)[key]? = records[key]? :=
  Store.getElem?_insert_of_ne _ other

theorem withEntries_of_not_mem (absent : key ∉ entries.map Entry.key) :
    (withEntries records entries)[key]? = records[key]? := by
  induction entries generalizing records with
  | nil => rfl
  | cons e entries ih =>
      rw [List.map_cons, List.mem_cons, not_or] at absent
      exact (ih absent.2).trans (withEntry_of_ne (Ne.symm absent.1))

theorem withEntries_of_mem (nodup : (entries.map Entry.key).Nodup) (mem : e ∈ entries) :
    (withEntries records entries)[e.key]? = some (e.applied records[e.key]?) := by
  induction entries generalizing records with
  | nil => cases mem
  | cons first entries ih =>
      obtain ⟨absent, nodup⟩ := List.nodup_cons.mp nodup
      obtain rfl | later := List.mem_cons.mp mem
      · exact (withEntries_of_not_mem absent).trans (withEntry_self records e)
      · have other : first.key ≠ e.key := fun same => absent (same ▸ List.mem_map_of_mem later)
        refine (ih nodup later).trans ?_
        rw [withEntry_of_ne other]

end

end Operator

/-! ## Manifests -/

namespace Manifest

/-- What a manifest adds to the behaviours of a resource. -/
def behavioursOf (m : Manifest) (id : String) : List Backend.Behaviour :=
  m.behaviours.toList.flatMap fun entry => if entry.1 = id then entry.2 else []

end Manifest

namespace Backend

variable {b : Backend} {id other : String}

/-- A resource with more behaviours. -/
def Resource.behave (r : Resource) (more : List Behaviour) : Resource :=
  { r with behaviours := r.behaviours ++ more }

theorem Resource.behave_nil (r : Resource) : r.behave [] = r := by
  rw [behave, List.append_nil]

theorem Resource.behave_behave (r : Resource) (more yet : List Behaviour) :
    (r.behave more).behave yet = r.behave (more ++ yet) := by
  rw [behave, behave, behave, List.append_assoc]

theorem resource_addBehaviour (b : Backend) (id other : String) (behaviour : Behaviour) :
    (b.addBehaviour other behaviour).resource id =
      (b.resource id).behave (if other = id then [behaviour] else []) := by
  rw [addBehaviour]
  by_cases own : other = id
  · subst own
    rw [resource_set, if_pos rfl]
    rfl
  · rw [resource_set_of_ne b own, if_neg own, Resource.behave_nil]

theorem resource_addBehaviours (more : List Behaviour) (b : Backend) (id other : String) :
    (more.foldl (fun b behaviour => b.addBehaviour other behaviour) b).resource id =
      (b.resource id).behave (if other = id then more else []) := by
  induction more generalizing b with
  | nil =>
      rw [ite_self, Resource.behave_nil]
      rfl
  | cons behaviour more ih =>
      rw [List.foldl_cons, ih, resource_addBehaviour, Resource.behave_behave]
      split <;> rfl

/-- A resource that was called some more. -/
def Resource.called (r : Resource) (calls : List Request) : Resource :=
  { r with requests := r.requests ++ calls }

/-- To add the same behaviours twice does not shift which one decides a call. -/
theorem Behaviour.select_append_append (old more : List Behaviour) (request : Request)
    (prior : Nat) :
    select (old ++ more ++ more) request prior = select (old ++ more) request prior := by
  have same : ((old ++ more ++ more).reverse.find? fun b =>
        b.reaction.request == request && b.covers prior) =
      (old ++ more).reverse.find? fun b => b.reaction.request == request && b.covers prior := by
    -- The search begins at the newest: the older copy is reached only where the newer has none.
    simp only [List.reverse_append, List.find?_append, ← Option.or_assoc, Option.or_self]
  rw [select, select, same]

end Backend

namespace Operator

theorem resource_installBehaviours (m : Manifest) (site : Site) (id : String) :
    (installBehaviours m site).backend.resource id =
      (site.backend.resource id).behave (m.behavioursOf id) := by
  have installed (pairs : List (String × List Backend.Behaviour)) (b : Backend) :
      (pairs.foldl (fun backend (entry : String × List Backend.Behaviour) =>
        entry.2.foldl (fun backend behaviour => backend.addBehaviour entry.1 behaviour) backend)
        b).resource id = (b.resource id).behave
          (pairs.flatMap fun entry => if entry.1 = id then entry.2 else []) := by
    induction pairs generalizing b with
    | nil => exact (Backend.Resource.behave_nil _).symm
    | cons entry pairs ih =>
        rw [List.foldl_cons, ih, Backend.resource_addBehaviours, Backend.Resource.behave_behave,
          List.flatMap_cons]
  exact installed m.behaviours.toList site.backend

/-- A manifest is applied to stores that are ready, kind by kind. -/
theorem applyTo_ready (m : Manifest) {site : Site} (ready : ∀ kind, Ready (site.store kind)) :
    ∃ after, applyTo m site = (.ok (), after) ∧ (∀ kind, Ready (after.store kind)) ∧
      (∀ kind, (after.store kind).records =
        withEntries (site.store kind).records (m.entries kind)) ∧
      ∀ id, after.backend.resource id = (site.backend.resource id).behave (m.behavioursOf id) := by
  have first : Ready ((installBehaviours m site).store .plain) := ready .plain
  obtain ⟨p, plain, readyPlain, recordsPlain⟩ := forEach_applyEntry .plain m.plain first
  have second : Ready (((installBehaviours m site).setStore .plain p).store .linked) :=
    ready .linked
  obtain ⟨l, linked, readyLinked, recordsLinked⟩ := forEach_applyEntry .linked m.linked second
  refine ⟨((installBehaviours m site).setStore .plain p).setStore .linked l, ?_, ?_, ?_, ?_⟩
  · rw [applyTo, plain]
    exact linked
  · intro kind
    cases kind with
    | plain => exact readyPlain
    | linked => exact readyLinked
  · intro kind
    cases kind with
    | plain => exact recordsPlain
    | linked => exact recordsLinked
  · exact resource_installBehaviours m site

end Operator

/-! ## What is established, and what a second time changes -/

/-- What a manifest says about a record, and under which key. -/
def Record.content (r : Record σ) : Key × σ × Annotations := (r.key, r.spec, r.metadata.annotations)

namespace Site

/-- Every entry of the manifest has its record, and no other record changed.  A record that was
there before keeps its annotations. -/
structure Establishes (before : Site) (m : Manifest) (after : Site) : Prop where
  entries : ∀ kind, ∀ e ∈ m.entries kind,
    (after.store kind).records[e.key]?.map Record.content =
      some (e.key, e.spec, ((before.store kind).records[e.key]?).elim e.annotations
        fun stored => stored.metadata.annotations)
  others : ∀ kind, ∀ key ∉ (m.entries kind).map Entry.key,
    (after.store kind).records[key]? = (before.store kind).records[key]?

/-- The stores have the same keys, with the same specifications and annotations, and every call of
the backend, after any other calls, runs the same operation. -/
structure Agrees (site other : Site) : Prop where
  contents : ∀ kind (key : Key), (other.store kind).records[key]?.map Record.content =
    (site.store kind).records[key]?.map Record.content
  selects : ∀ (id : String) (calls : List Backend.Request) (request : Backend.Request),
    ((other.backend.resource id).called calls).select request =
      ((site.backend.resource id).called calls).select request

end Site

theorem Entry.content_applied {s : Store σ} (filed : s.Filed) (e : Entry σ) :
    (e.applied s.records[e.key]?).content =
      (e.key, e.spec, (s.records[e.key]?).elim e.annotations
        fun stored => stored.metadata.annotations) := by
  have own := Operator.applied_key filed e
  cases found : s.records[e.key]? with
  | none => rfl
  | some stored =>
      rw [found] at own
      exact Prod.ext own rfl

namespace Operator

variable {o : Operator} {m : Manifest}

theorem establishes_of_records {before after : Site} (accepted : m.validate = .ok m)
    (filed : before.Filed) (records : ∀ kind, (after.store kind).records =
      withEntries (before.store kind).records (m.entries kind)) : before.Establishes m after where
  entries kind e mem := by
    rw [records, withEntries_of_mem (Manifest.nodup_of_validate accepted kind) mem, Option.map_some,
      Entry.content_applied (filed kind)]
  others kind key absent := by
    rw [records, withEntries_of_not_mem absent]

/-- Where the entries are established, to apply them again changes nothing that they say. -/
theorem contents_of_again {before after again : Site} (first : before.Establishes m after)
    (second : after.Establishes m again) (kind : Kind) (key : Key) :
    (again.store kind).records[key]?.map Record.content =
      (after.store kind).records[key]?.map Record.content := by
  by_cases named : key ∈ (m.entries kind).map Entry.key
  · obtain ⟨e, mem, rfl⟩ := List.mem_map.mp named
    -- The second time a record is there, so its own annotations stay, whosever they were at first.
    have established := first.entries kind e mem
    rw [second.entries kind e mem, established]
    obtain ⟨r, stored, content⟩ := Option.map_eq_some_iff.mp established
    rw [stored, Option.elim_some]
    exact congrArg (fun annotations => some (e.key, e.spec, annotations))
      (congrArg (fun content => content.2.2) content)
  · rw [second.others kind key named]

/-- Behaviours that are added once more leave every selection as it was. -/
theorem selects_of_again {site after again : Site}
    (first : ∀ id, after.backend.resource id =
      (site.backend.resource id).behave (m.behavioursOf id))
    (second : ∀ id, again.backend.resource id =
      (after.backend.resource id).behave (m.behavioursOf id))
    (id : String) (calls : List Backend.Request) (request : Backend.Request) :
    ((again.backend.resource id).called calls).select request =
      ((after.backend.resource id).called calls).select request := by
  rw [second, first]
  exact Backend.Behaviour.select_append_append _ _ request _

/-- To apply a manifest that was accepted, to an operator in any state, goes through if no store is
to fail.  It establishes the entries, and to apply the manifest once more goes through as well and
changes nothing that the entries say, nor how the backend answers any call. -/
theorem apply_establishes (reached : o.Reached) (accepted : m.validate = .ok m)
    (sound : ∀ kind, (o.site.store kind).faults = 0) :
    (o.apply m).1 = .ok () ∧
    ∃ after, applyTo m o.site = (.ok (), after) ∧ o.site.Establishes m after ∧
      ∃ again, applyTo m after = (.ok (), again) ∧ after.Agrees again := by
  have ready (kind : Kind) : Ready (o.site.store kind) := ⟨reached.filed kind, sound kind⟩
  obtain ⟨after, applied, readyAfter, records, behaviours⟩ := applyTo_ready m ready
  obtain ⟨again, reapplied, _, recordsAgain, behavioursAgain⟩ := applyTo_ready m readyAfter
  have first := establishes_of_records accepted reached.filed records
  have second := establishes_of_records accepted (fun kind => (readyAfter kind).filed) recordsAgain
  refine ⟨congrArg Prod.fst applied, after, applied, first, again, reapplied, ?_, ?_⟩
  · exact contents_of_again first second
  · exact selects_of_again behaviours behavioursAgain

def sampleKey : Key := ⟨"default", "web"⟩

/-- A manifest with one plain entry, and a behaviour for its resource. -/
def sampleManifest (annotations : Annotations) : Manifest where
  plain := [{ key := sampleKey, annotations, spec := { id := "vm-1" } }]
  behaviours := (∅ : Std.ExtTreeMap String (List Backend.Behaviour) compare).insert "vm-1"
    [{ reaction := .createFail, width := 1 }]

/-- An annotation that permits nothing but to create. -/
def createOnly : Annotations := (∅ : Annotations).insert "operatify.io/access-permissions" "C"

/-- An operator was started, and a manifest without annotations was applied to it. -/
theorem reached_sample : ∃ o : Operator, o.Reached ∧ (∀ kind, (o.site.store kind).faults = 0) ∧
    (applyTo (sampleManifest createOnly) o.site).2.plain.records[sampleKey]?.map
      (fun r => r.metadata.annotations.toList) = some [] := by
  have evaluated : (start {}).toOption.map (fun o =>
      ((o.apply (sampleManifest ∅)).2.site.plain.faults,
        (o.apply (sampleManifest ∅)).2.site.linked.faults,
        (applyTo (sampleManifest createOnly) (o.apply (sampleManifest ∅)).2.site).2.plain.records[
          sampleKey]?.map fun r => r.metadata.annotations.toList)) =
      some (0, 0, some []) := by
    decide +kernel
  cases started : start {} with
  | error => cases started ▸ evaluated
  | ok o =>
      rw [started] at evaluated
      have parts := Option.some.inj evaluated
      simp only [Prod.mk.injEq] at parts
      refine ⟨_, (Reached.start started).apply (sampleManifest ∅), fun kind => ?_, parts.2.2⟩
      cases kind with
      | plain => exact parts.1
      | linked => exact parts.2.1

theorem apply_establishes_of_sample : ∃ o : Operator, o.Reached ∧
    (sampleManifest createOnly).validate = .ok (sampleManifest createOnly) ∧
    (∀ kind, (o.site.store kind).faults = 0) ∧
    (o.apply (sampleManifest createOnly)).1 = .ok () ∧
    ∃ after, applyTo (sampleManifest createOnly) o.site = (.ok (), after) ∧
      o.site.Establishes (sampleManifest createOnly) after ∧
      ∃ again,
        applyTo (sampleManifest createOnly) after = (.ok (), again) ∧ after.Agrees again := by
  obtain ⟨o, reached, sound, _⟩ := reached_sample
  have accepted : (sampleManifest createOnly).validate = .ok (sampleManifest createOnly) := rfl
  exact ⟨o, reached, accepted, sound, apply_establishes reached accepted sound⟩

/-- The annotation that the second manifest adds does not arrive in the record that is there. -/
theorem annotation_lost_of_sample : ¬ ∀ (o : Operator) (m : Manifest) (after : Site),
    o.Reached → m.validate = .ok m → (∀ kind, (o.site.store kind).faults = 0) →
    applyTo m o.site = (.ok (), after) → ∀ e ∈ m.plain, ∃ r,
      after.plain.records[e.key]? = some r ∧
      ∀ (name value : String), e.annotations[name]? = some value →
        r.metadata.annotations[name]? = some value := by
  intro arrives
  obtain ⟨o, reached, sound, lost⟩ := reached_sample
  have ready (kind : Kind) : Ready (o.site.store kind) := ⟨reached.filed kind, sound kind⟩
  obtain ⟨after, applied, _⟩ := applyTo_ready (sampleManifest createOnly) ready
  obtain ⟨r, stored, all⟩ := arrives o _ after reached rfl sound applied _ List.mem_cons_self
  rw [applied] at lost
  change after.plain.records[sampleKey]? = some r at stored
  rw [stored, Option.map_some, Option.some.injEq, Std.ExtTreeMap.toList_eq_nil_iff] at lost
  have arrived := all "operatify.io/access-permissions" "C" Std.ExtTreeMap.getElem?_insert_self
  rw [lost] at arrived
  cases arrived

end Operator

end Steward
