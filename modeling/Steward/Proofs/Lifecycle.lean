import Steward.Proofs.Life
import Steward.Proofs.Removal
import Steward.Proofs.Undisturbed

/-!
# From the filing of a record to its removal

One plain record on a bench that is left alone: it is filed, and then it is reconciled, what its
resource has under way is completed and its deletion is asked for, in any order and as often as one
likes.  Its resource is created once and deleted once, and goes through the same conditions in the
same order whatever the order of these errands, but for one case: a record that carries the
finalizer of the engine from the start, and is never seen before its deletion is asked for, has a
resource deleted that was never created.
-/

namespace Steward

/-- What is done for a record once it is filed. -/
inductive Errand where
  | reconcile
  /-- Complete what the resource has under way. -/
  | complete
  | requestDeletion
  deriving DecidableEq

def Bench.runErrand (key : Key) (id : String) (b : Bench) : Errand → Bench
  | .reconcile => (b.reconcile .plain key).2
  | .complete => (b.operate (.complete id)).2
  | .requestDeletion => (b.store .plain (.requestDeletion key)).2

/-- The deletion was asked for before there was any reconcile. -/
def Hasty (errands : List Errand) : Prop :=
  ∃ quiet later, errands = quiet ++ .requestDeletion :: later ∧ .reconcile ∉ quiet

theorem Hasty.append {errands : List Errand} (hasty : Hasty errands) (errand : Errand) :
    Hasty (errands ++ [errand]) := by
  obtain ⟨quiet, later, rfl, unreconciled⟩ := hasty
  exact ⟨quiet, later ++ [errand], by simp, unreconciled⟩

theorem hasty_of_unreconciled {errands : List Errand} (asked : .requestDeletion ∈ errands)
    (unreconciled : .reconcile ∉ errands) : Hasty errands := by
  obtain ⟨quiet, later, rfl⟩ := List.append_of_mem asked
  exact ⟨quiet, later, rfl, fun early => unreconciled (List.mem_append_left _ early)⟩

/-! ## What errands keep -/

/-- What is known of a record after these errands, when its resource has come so far. -/
structure Life.Holds (c : Controller Plain) (r : Record Plain) (errands : List Errand) (life : Life)
    (stored : Record Plain) : Prop where
  operation : stored.status.operation = life.operation
  guarded : life.operation ≠ none → life.delete ≠ .landed → c.Guards stored
  unattended : life.operation = none → stored.metadata.finalizers = r.metadata.finalizers
  requested : stored.metadata.isDeletionRequested = true →
    .requestDeletion ∈ errands ∧ (life.create = .unasked → Hasty errands)
  unrequested : stored.metadata.isDeletionRequested = false →
    life.delete = .unasked ∧ (life.create = .unasked → .reconcile ∉ errands)

/-- A bench after these errands for a record, when its resource has come so far. -/
structure Lifecycle (c : Controller Plain) (linked : Controller Linked) (r : Record Plain)
    (errands : List Errand) (life : Life) (b : Bench) : Prop where
  course : Course c linked r b
  fits : life.Fits (b.site.backend.resource (c.resourceId r))
  holds : ∀ stored, b.site.plain.records[r.key]? = some stored → life.Holds c r errands stored
  absent : b.site.plain.records[r.key]? = none →
    .requestDeletion ∈ errands ∧ (Hasty errands ∨ life.delete = .landed)
  hasty : life.create = .unasked → life.delete ≠ .unasked → c.Guards r ∧ Hasty errands

namespace Lifecycle

variable {c : Controller Plain} {linked : Controller Linked} {r stored : Record Plain}
variable {errands : List Errand} {life : Life} {b : Bench}

theorem own (cycle : Lifecycle c linked r errands life b)
    (found : b.site.plain.records[r.key]? = some stored) : stored.key = r.key := by
  obtain ⟨past, run⟩ := cycle.course.run
  exact run.filed _ _ found

theorem declares (cycle : Lifecycle c linked r errands life b)
    (found : b.site.plain.records[r.key]? = some stored) :
    c.resourceId stored = c.resourceId r ∧
      stored.metadata.annotations = r.metadata.annotations := by
  obtain ⟨past, run⟩ := cycle.course.run
  obtain ⟨spec, annotations⟩ := run.declares stored (.inl found)
  exact ⟨congrArg c.definition.resourceId spec, annotations⟩

theorem permits (cycle : Lifecycle c linked r errands life b)
    (unrestricted : r.metadata.annotations[c.permissionKey]? = none)
    (found : b.site.plain.records[r.key]? = some stored) :
    Permissions.ofAnnotations stored.metadata.annotations c.permissionKey = .all := by
  rw [(cycle.declares found).2, Permissions.ofAnnotations, unrestricted]
  rfl

/-- One more errand is counted.  A reconcile must not be the first one of a record that is to stay,
for that one issues a create. -/
theorem append (cycle : Lifecycle c linked r errands life b) (errand : Errand)
    (later : errand = .reconcile → ∀ stored, b.site.plain.records[r.key]? = some stored →
      stored.metadata.isDeletionRequested = false → life.create ≠ .unasked) :
    Lifecycle c linked r (errands ++ [errand]) life b := by
  refine ⟨cycle.course, cycle.fits, ?_, ?_, ?_⟩
  · intro stored found
    have holds := cycle.holds stored found
    refine ⟨holds.operation, holds.guarded, holds.unattended, ?_, ?_⟩
    · intro requested
      obtain ⟨asked, hasty⟩ := holds.requested requested
      exact ⟨List.mem_append_left _ asked, fun unasked => (hasty unasked).append errand⟩
    · intro unrequested
      obtain ⟨standing, quiet⟩ := holds.unrequested unrequested
      refine ⟨standing, fun unasked reconciled => ?_⟩
      obtain before | last := List.mem_append.mp reconciled
      · exact quiet unasked before
      · exact later (List.mem_singleton.mp last).symm stored found unrequested unasked
  · intro absent
    obtain ⟨asked, reason⟩ := cycle.absent absent
    exact ⟨List.mem_append_left _ asked, reason.imp_left (·.append errand)⟩
  · intro unasked begun
    obtain ⟨guards, hasty⟩ := cycle.hasty unasked begun
    exact ⟨guards, hasty.append errand⟩

/-! ### Completions and requests -/

/-- What is parked lands, and the record stays as it is. -/
theorem complete (cycle : Lifecycle c linked r errands life b) :
    Lifecycle c linked r errands life.complete
      (b.runErrand r.key (c.resourceId r) .complete) := by
  obtain ⟨_, kept, completed⟩ := cycle.course.calm.complete (c.resourceId r)
  refine ⟨.completed _ cycle.course, ?_, ?_, ?_, ?_⟩
  · rw [Bench.runErrand, completed]
    exact cycle.fits.complete
  · intro stored found
    rw [Bench.runErrand, kept] at found
    have holds := cycle.holds stored found
    refine ⟨?_, ?_, ?_, ?_, ?_⟩
    · rw [life.operation_complete]
      exact holds.operation
    · rw [life.operation_complete]
      intro issued pending
      refine holds.guarded issued fun landed => pending ?_
      rw [Life.complete_of_landed landed]
      exact landed
    · rw [life.operation_complete]
      exact holds.unattended
    · rw [life.create_complete]
      exact holds.requested
    · rw [life.create_complete, life.delete_complete]
      exact holds.unrequested
  · intro absent
    rw [Bench.runErrand, kept] at absent
    obtain ⟨asked, reason⟩ := cycle.absent absent
    refine ⟨asked, reason.imp_right fun landed => ?_⟩
    rw [Life.complete_of_landed landed]
    exact landed
  · rw [life.create_complete, ne_eq, life.delete_complete]
    exact cycle.hasty

/-- A request for the deletion of a resource that nothing was done for yet comes before any
reconcile. -/
theorem hasty_of_unasked (holds : life.Holds c r errands stored)
    (asked : .requestDeletion ∈ errands) (unasked : life.create = .unasked) : Hasty errands := by
  cases requested : stored.metadata.isDeletionRequested with
  | true => exact (holds.requested requested).2 unasked
  | false => exact hasty_of_unreconciled asked ((holds.unrequested requested).2 unasked)

/-- The record is marked, unless it was before; without finalizers it goes at once. -/
theorem requestDeletion (cycle : Lifecycle c linked r errands life b)
    (asked : .requestDeletion ∈ errands) :
    Lifecycle c linked r errands life (b.runErrand r.key (c.resourceId r) .requestDeletion) := by
  obtain ⟨past, run⟩ := cycle.course.run
  have becomes : Store.Becomes r.key (.requestDeletion r.key) b.site.plain.records[r.key]?
      (b.runErrand r.key (c.resourceId r) .requestDeletion).site.plain.records[r.key]? :=
    (Store.perform_lawful run.filed b.site.wall (.requestDeletion r.key)).becomes r.key
  refine ⟨.requested cycle.course, cycle.fits, ?_, ?_, cycle.hasty⟩
  · intro stored found
    rw [found] at becomes
    generalize before : b.site.plain.records[r.key]? = held at becomes
    cases becomes with
    | unchanged => exact cycle.holds stored before
    | marked =>
        have holds := cycle.holds _ before
        exact ⟨holds.operation, holds.guarded, holds.unattended,
          fun _ => ⟨asked, hasty_of_unasked holds asked⟩, nofun⟩
  · intro absent
    rw [absent] at becomes
    generalize before : b.site.plain.records[r.key]? = held at becomes
    cases becomes with
    | unchanged => exact cycle.absent before
    | dropped free =>
        have holds := cycle.holds _ before
        refine ⟨asked, ?_⟩
        by_cases landed : life.delete = .landed
        · exact .inr landed
        by_cases issued : life.operation = none
        · obtain rfl := Life.operation_eq_none_iff.mp issued
          exact .inl (hasty_of_unasked holds asked rfl)
        · exact absurd free (holds.guarded issued landed).finalizers_ne_nil

/-! ### Reconciles of a record that is to be deleted -/

/-- A status was written down. -/
theorem of_restates {base : Record Plain} {backend : Backend} (course : Course c linked r b)
    (own : base.key = r.key) (restates : b.Restates c base life.operation backend)
    (fits : life.Fits (backend.resource (c.resourceId r)))
    (guards : c.Guards base) (issued : life.operation ≠ none)
    (requested : base.metadata.isDeletionRequested = true →
      .requestDeletion ∈ errands ∧ (life.create = .unasked → Hasty errands))
    (unrequested : base.metadata.isDeletionRequested = false →
      life.delete = .unasked ∧ life.create ≠ .unasked)
    (hasty : life.create = .unasked → life.delete ≠ .unasked → c.Guards r ∧ Hasty errands) :
    Lifecycle c linked r errands life b := by
  obtain ⟨resourceVersion, status, operation, left⟩ := restates
  rw [own] at left
  refine ⟨course, left.backend ▸ fits, ?_, ?_, hasty⟩
  · intro stored found
    cases found.symm.trans left.found
    refine ⟨operation, fun _ _ => guards, fun unissued => absurd unissued issued, requested, ?_⟩
    intro unmarked
    obtain ⟨standing, begun⟩ := unrequested unmarked
    exact ⟨standing, fun unasked => absurd unasked begun⟩
  · intro absent
    cases absent.symm.trans left.found

/-- The delete is issued. -/
theorem issues_delete (cycle : Lifecycle c linked r errands life b)
    (found : b.site.plain.records[r.key]? = some stored)
    (requested : stored.metadata.isDeletionRequested = true) (guards : c.Guards stored)
    (standing : life.delete = .unasked)
    (reconciled : b.reconcile .plain r.key =
      b.carry c.intervals.operationTimeout (c.issueDelete stored).run) :
    Lifecycle c linked r errands { life with delete := .accepted }
      (b.reconcile .plain r.key).2 := by
  have own := cycle.own found
  have named := (cycle.declares found).1
  have holds := cycle.holds stored found
  have asked := holds.requested requested
  have marked : ({ life with delete := .accepted } : Life).operation = some .delete :=
    Life.operation_eq_delete_iff.mpr nofun
  have restates := cycle.course.calm.issueDelete_restates c.intervals.operationTimeout
    (by rw [own]; exact found) guards (by rw [named]; exact cycle.fits.plainly)
  rw [← reconciled, named, ← marked] at restates
  refine of_restates (.reconciled cycle.course) own restates ?_ guards ?_ (fun _ => asked) ?_ ?_
  · rw [Bench.resource_received]
    exact cycle.fits.deleted standing
  · rw [marked]
    exact Option.some_ne_none _
  · intro unrequested
    cases unrequested.symm.trans requested
  · -- The resource was never created, so the finalizer is one that the record was filed with.
    intro unasked _
    have untouched : life.operation = none :=
      Life.operation_eq_none_iff.mpr (Life.eq_empty unasked standing)
    refine ⟨?_, asked.2 unasked⟩
    rw [Controller.Guards, Metadata.hasFinalizer, ← holds.unattended untouched]
    exact guards

/-- The delete is waited for. -/
theorem polls_delete (cycle : Lifecycle c linked r errands life b)
    (found : b.site.plain.records[r.key]? = some stored)
    (requested : stored.metadata.isDeletionRequested = true) (guards : c.Guards stored)
    (accepted : life.delete = .accepted)
    (reconciled : b.reconcile .plain r.key =
      b.carry c.intervals.operationTimeout (c.verifyDelete stored).run) :
    Lifecycle c linked r errands life (b.reconcile .plain r.key).2 := by
  have own := cycle.own found
  have named := (cycle.declares found).1
  have asked := (cycle.holds stored found).requested requested
  have issued : life.operation = some .delete :=
    Life.operation_eq_delete_iff.mpr (by rw [accepted]; nofun)
  have restates := cycle.course.calm.verifyDelete_restates c.intervals.operationTimeout
    (by rw [own]; exact found) guards (by rw [named]; exact cycle.fits.plainly)
    (by rw [named, cycle.fits.latest, Life.latest_of_accepted accepted])
  rw [← reconciled, named, ← issued] at restates
  refine of_restates (.reconciled cycle.course) own restates ?_ guards ?_ (fun _ => asked) ?_
    cycle.hasty
  · rw [Bench.resource_received]
    exact cycle.fits.verified
  · rw [issued]
    exact Option.some_ne_none _
  · intro unrequested
    cases unrequested.symm.trans requested

/-- The resource is gone, and the record is released. -/
theorem releases (cycle : Lifecycle c linked r errands life b)
    (found : b.site.plain.records[r.key]? = some stored)
    (requested : stored.metadata.isDeletionRequested = true) (guards : c.Guards stored)
    (landed : life.delete = .landed)
    (reconciled : b.reconcile .plain r.key =
      b.carry c.intervals.operationTimeout (c.verifyDelete stored).run) :
    Lifecycle c linked r errands life (b.reconcile .plain r.key).2 := by
  have own := cycle.own found
  have named := (cycle.declares found).1
  have holds := cycle.holds stored found
  have issued : life.operation = some .delete :=
    Life.operation_eq_delete_iff.mpr (by rw [landed]; nofun)
  have released := cycle.course.calm.verifyDelete_releases c.intervals.operationTimeout
    (by rw [own]; exact found) guards (by rw [named]; exact cycle.fits.plainly)
    (by rw [named, cycle.fits.latest, Life.latest_of_landed landed])
  rw [← reconciled, named, own] at released
  refine ⟨.reconciled cycle.course, ?_, ?_, ?_, cycle.hasty⟩
  · rw [released.backend, Bench.resource_received]
    exact cycle.fits.verified
  · intro left shown
    have kept := shown.symm.trans released.found
    rw [Record.landed] at kept
    split at kept
    · cases kept
    cases kept
    refine ⟨holds.operation, fun _ pending => absurd landed pending, ?_, ?_, ?_⟩
    · intro unissued
      cases unissued.symm.trans issued
    · exact fun _ => holds.requested requested
    · intro unrequested
      cases unrequested.symm.trans requested
  · exact fun _ => ⟨(holds.requested requested).1, .inr landed⟩

theorem reconcile_deleting (cycle : Lifecycle c linked r errands life b)
    (unrestricted : r.metadata.annotations[c.permissionKey]? = none)
    (found : b.site.plain.records[r.key]? = some stored)
    (requested : stored.metadata.isDeletionRequested = true) :
    ∃ life, Lifecycle c linked r errands life (b.reconcile .plain r.key).2 := by
  have calm := cycle.course.calm
  have permits := cycle.permits unrestricted found
  by_cases guards : c.Guards stored
  case neg =>
    have unguarded : stored.metadata.hasFinalizer c.definition.finalizer = false :=
      Bool.eq_false_iff.mpr guards
    have reconciled := calm.reconcile_of_stored found permits
    rw [if_pos requested, Controller.reconcileDeletion, DeletionPlan.next, unguarded] at reconciled
    have same : (b.reconcile .plain r.key).2 = b := congrArg Prod.snd reconciled
    rw [same]
    exact ⟨life, cycle⟩
  have permitted : c.PermitsDelete stored := by rw [Controller.PermitsDelete, permits]; rfl
  have reconciled := calm.reconcile_of_deleting found requested guards permitted
  rw [(cycle.holds stored found).operation] at reconciled
  cases come : life.delete with
  | unasked =>
      rw [if_neg fun issued => Life.operation_eq_delete_iff.mp issued come] at reconciled
      exact ⟨_, cycle.issues_delete found requested guards come reconciled⟩
  | accepted =>
      rw [if_pos (Life.operation_eq_delete_iff.mpr (by rw [come]; decide))] at reconciled
      exact ⟨_, cycle.polls_delete found requested guards come reconciled⟩
  | landed =>
      rw [if_pos (Life.operation_eq_delete_iff.mpr (by rw [come]; decide))] at reconciled
      exact ⟨_, cycle.releases found requested guards come reconciled⟩

/-! ### Reconciles of a record that is to stay -/

/-- What a reconcile makes of a record that is to stay, after a single call. -/
theorem of_present (cycle : Lifecycle c linked r errands life b) (call : Call) {next : Life}
    (kind : c.definition = Plain.definition)
    (unrestricted : r.metadata.annotations[c.permissionKey]? = none)
    (found : b.site.plain.records[r.key]? = some stored)
    (stays : stored.metadata.isDeletionRequested = false)
    (fits : next.Fits
      ((b.site.backend.resource (c.resourceId r)).receive (Bench.request call)).2)
    (standing : next.delete = .unasked) (begun : next.create ≠ .unasked)
    (drives : ∀ after : Bench, after.Calm c → after.site.backend = b.site.backend →
      ∃ t, after.carry c.intervals.operationTimeout (c.drive (c.secured stored) .all).run =
          (.ok t, after.received call (c.resourceId stored)) ∧
        (t.operation <|> stored.status.operation) = some .create) (more : List Errand) :
    Lifecycle c linked r more next (b.reconcile .plain r.key).2 := by
  have own := cycle.own found
  have issued : next.operation = some .create := Life.operation_of_created standing begun
  have restates := cycle.course.calm.reconcile_restates kind (by rw [own]; exact found) stays
    (cycle.permits unrestricted found) drives
  rw [own, (cycle.declares found).1, ← issued] at restates
  refine of_restates (.reconciled cycle.course) ((c.secured_key stored).trans own) restates ?_
    (c.secured_guards stored) ?_ ?_ (fun _ => ⟨standing, begun⟩)
    (fun unasked => absurd unasked begun)
  · rw [Bench.resource_received]
    exact fits
  · rw [issued]
    exact Option.some_ne_none _
  · intro requested
    rw [c.secured_isDeletionRequested, stays] at requested
    cases requested

theorem reconcile_staying (cycle : Lifecycle c linked r errands life b)
    (kind : c.definition = Plain.definition)
    (unrestricted : r.metadata.annotations[c.permissionKey]? = none)
    (found : b.site.plain.records[r.key]? = some stored)
    (stays : stored.metadata.isDeletionRequested = false) (more : List Errand) :
    ∃ life, Lifecycle c linked r more life (b.reconcile .plain r.key).2 := by
  have holds := cycle.holds stored found
  obtain ⟨standing, _⟩ := holds.unrequested stays
  have named : c.resourceId (c.secured stored) = c.resourceId stored :=
    congrArg c.definition.resourceId (c.secured_spec stored)
  have known : c.resourceId stored = c.resourceId r := (cycle.declares found).1
  by_cases unasked : life.create = .unasked
  · have untouched := Life.eq_empty unasked standing
    have unissued : (c.secured stored).status.operation = none := by
      rw [c.secured_status, holds.operation]
      exact Life.operation_eq_none_iff.mpr untouched
    refine ⟨{ create := .accepted }, cycle.of_present .create kind unrestricted found stays
      (cycle.fits.created untouched) rfl nofun (fun after calm same => ?_) more⟩
    obtain ⟨t, called, issues⟩ := calm.carry_drive_unissued c.intervals.operationTimeout unissued
      (by rw [named, known, same]; exact cycle.fits.plainly)
    exact ⟨t, named ▸ called, by rw [issues]; rfl⟩
  · have issued : stored.status.operation = some .create := by
      rw [holds.operation]
      exact Life.operation_of_created standing unasked
    refine ⟨life, cycle.of_present .verify kind unrestricted found stays
      cycle.fits.verified standing unasked (fun after calm same => ?_) more⟩
    obtain ⟨t, called, settles⟩ := calm.carry_drive_issued c.intervals.operationTimeout
      (by rw [c.secured_status]; exact issued)
      (by rw [named, known, same]; exact cycle.fits.plainly)
      (by
        rw [named, known, same, cycle.fits.latest]
        exact Life.latest_of_created standing unasked)
    exact ⟨t, named ▸ called, by rw [settles, issued]; rfl⟩

/-! ### Whole courses -/

theorem runErrand (cycle : Lifecycle c linked r errands life b)
    (kind : c.definition = Plain.definition)
    (unrestricted : r.metadata.annotations[c.permissionKey]? = none) (errand : Errand) :
    ∃ life, Lifecycle c linked r (errands ++ [errand]) life
      (b.runErrand r.key (c.resourceId r) errand) := by
  cases errand with
  | complete => exact ⟨_, (cycle.append .complete nofun).complete⟩
  | requestDeletion =>
      have asked := List.mem_append_right errands (List.mem_singleton_self Errand.requestDeletion)
      exact ⟨_, (cycle.append .requestDeletion nofun).requestDeletion asked⟩
  | reconcile =>
      cases found : b.site.plain.records[r.key]? with
      | none =>
          rw [Bench.runErrand, cycle.course.calm.reconcile_of_absent found]
          refine ⟨life, cycle.append .reconcile fun _ stored there => ?_⟩
          cases there.symm.trans found
      | some stored =>
          cases requested : stored.metadata.isDeletionRequested with
          | false => exact cycle.reconcile_staying kind unrestricted found requested _
          | true =>
              refine (cycle.append .reconcile fun _ other there unrequested => ?_).reconcile_deleting
                unrestricted found requested
              cases there.symm.trans found
              cases unrequested.symm.trans requested

theorem runErrands (cycle : Lifecycle c linked r errands life b)
    (kind : c.definition = Plain.definition)
    (unrestricted : r.metadata.annotations[c.permissionKey]? = none) (more : List Errand) :
    ∃ life, Lifecycle c linked r (errands ++ more) life
      (more.foldl (Bench.runErrand r.key (c.resourceId r)) b) := by
  induction more generalizing errands life b with
  | nil => exact ⟨life, (List.append_nil errands).symm ▸ cycle⟩
  | cons errand more ih =>
      obtain ⟨next, cycle⟩ := cycle.runErrand kind unrestricted errand
      rw [List.append_cons]
      exact ih cycle

theorem start (c : Controller Plain) (linked : Controller Linked) (wall : Instant)
    (blank : r.status = {}) :
    Lifecycle c linked r [] {}
      (({ plain := c, linked, site := { wall } } : Bench).store .plain (.create r)).2 := by
  have filed : (({ plain := c, linked, site := { wall } } : Bench).store .plain
      (.create r)).2.site.plain.records[r.key]? = some (Store.fresh r) :=
    Std.ExtTreeMap.getElem?_insert_self
  refine ⟨.created wall, Life.fits_empty, ?_, ?_, fun _ begun => absurd rfl begun⟩
  · intro stored found
    cases found.symm.trans filed
    refine ⟨?_, fun issued => absurd rfl issued, fun _ => rfl, nofun, fun _ => ⟨rfl, nofun⟩⟩
    rw [Store.fresh, blank]
    rfl
  · intro absent
    cases absent.symm.trans filed

end Lifecycle

/-- The bench after a plain record was filed, with a fresh backend, and these errands were run. -/
def Bench.afterErrands (c : Controller Plain) (linked : Controller Linked) (wall : Instant)
    (r : Record Plain) (errands : List Errand) : Bench :=
  errands.foldl (Bench.runErrand r.key (c.resourceId r))
    (({ plain := c, linked, site := { wall } } : Bench).store .plain (.create r)).2

/-- A resource is created and deleted at most once, and the record goes only after it, or at once. -/
structure LivesInOrder (c : Controller Plain) (r : Record Plain) (errands : List Errand)
    (b : Bench) : Prop where
  /-- A create may be overtaken by a delete.  A delete without a create is only there when the record
  was filed with the finalizer of the engine on it and its deletion was asked for at once. -/
  conditions :
    (b.site.backend.resource (c.resourceId r)).conditions <+:
        [.inProgress, .ready, .deleting, .missing] ∨
      (b.site.backend.resource (c.resourceId r)).conditions <+: [.inProgress, .deleting, .missing] ∨
      (b.site.backend.resource (c.resourceId r)).conditions <+: [.deleting, .missing] ∧
        c.Guards r ∧ Hasty errands
  creates : (b.site.backend.resource (c.resourceId r)).count .create ≤ 1
  deletes : (b.site.backend.resource (c.resourceId r)).count .delete ≤ 1
  updates : (b.site.backend.resource (c.resourceId r)).count .update = 0
  absent : r.key ∉ b.site.plain.records →
    .requestDeletion ∈ errands ∧ (Hasty errands ∨
      (b.site.backend.resource (c.resourceId r)).conditions.getLast? = some .missing)

theorem Lifecycle.livesInOrder {c : Controller Plain} {linked : Controller Linked}
    {r : Record Plain} {errands : List Errand} {life : Life} {b : Bench}
    (cycle : Lifecycle c linked r errands life b) : LivesInOrder c r errands b := by
  refine ⟨?_, ?_, ?_, cycle.fits.updates, fun absent => ?_⟩
  · rw [cycle.fits.conditions]
    have hasty := cycle.hasty
    obtain ⟨create, delete⟩ := life
    cases create with
    | unasked =>
        cases delete with
        | unasked => exact .inl (by decide)
        | accepted | landed => exact .inr (.inr ⟨by decide, hasty rfl nofun⟩)
    | accepted => exact .inr (.inl (by cases delete <;> decide))
    | landed => exact .inl (by cases delete <;> decide)
  · rw [cycle.fits.creates]
    exact life.create.calls_le
  · rw [cycle.fits.deletes]
    exact life.delete.calls_le
  · obtain ⟨asked, reason⟩ := cycle.absent (Std.ExtTreeMap.getElem?_eq_none absent)
    refine ⟨asked, reason.imp_right fun landed => ?_⟩
    rw [cycle.fits.conditions]
    obtain ⟨create, delete⟩ := life
    cases landed
    cases create <;> rfl

/-- Whatever the order of reconciles, completions and requests for its deletion, the resource of a
plain record is created at most once and deleted at most once, and the record goes only when its
deletion was asked for, at once or until the resource is gone. -/
theorem errands_live_in_order {c : Controller Plain} (kind : c.definition = Plain.definition)
    (linked : Controller Linked) (wall : Instant) {r : Record Plain} (blank : r.status = {})
    (unrestricted : r.metadata.annotations[c.permissionKey]? = none) (errands : List Errand) :
    LivesInOrder c r errands (Bench.afterErrands c linked wall r errands) := by
  obtain ⟨life, cycle⟩ :=
    (Lifecycle.start c linked wall blank).runErrands kind unrestricted errands
  exact cycle.livesInOrder

open Scene

/-- A create that lands, and then a delete that lands. -/
def sampleErrands : List Errand :=
  [.reconcile, .complete, .reconcile, .requestDeletion, .reconcile, .complete, .reconcile]

theorem errands_live_in_order_of_sample :
    sample.definition = Plain.definition ∧ sampleRecord.status = {} ∧
      sampleRecord.metadata.annotations[sample.permissionKey]? = none ∧
      LivesInOrder sample sampleRecord sampleErrands
        (Bench.afterErrands sample linkedSample sampleInstant sampleRecord sampleErrands) := by
  have unrestricted : sampleRecord.metadata.annotations[sample.permissionKey]? = none := by
    decide +kernel
  exact ⟨rfl, rfl, unrestricted,
    errands_live_in_order rfl linkedSample sampleInstant rfl unrestricted sampleErrands⟩

/-- The deletion of a record that was filed with the finalizer on it deletes a resource that was never
created. -/
theorem delete_without_create_of_guardedSample :
    guardedSample.status = {} ∧
      guardedSample.metadata.annotations[sample.permissionKey]? = none ∧
      ((Bench.afterErrands sample linkedSample sampleInstant guardedSample
        [.requestDeletion, .reconcile]).site.backend.resource
          (sample.resourceId guardedSample)).conditions = [.deleting] ∧
      ¬ [Condition.deleting] <+: [.inProgress, .ready, .deleting, .missing] ∧
      ¬ [Condition.deleting] <+: [.inProgress, .deleting, .missing] := by
  refine ⟨rfl, ?_, ?_, ?_, ?_⟩ <;> decide +kernel

end Steward
