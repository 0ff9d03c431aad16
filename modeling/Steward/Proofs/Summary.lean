import Mathlib.Data.List.Perm.Basic
import Steward.Cli
import Steward.Proofs.Apply
import Steward.Proofs.Confined
import Steward.Proofs.Pace
import Steward.Proofs.Records

/-!
# The summary of a run

Until the run command asks for deletions nobody does: the loops only rewrite records and write
statuses with short messages.  So from the moment the manifest was applied the stores have one
record for each of its entries and no others, and the summary that is printed once all of them
settled has one line for each.
-/

namespace Steward

variable {σ : Type}

/-! ## What the stores have -/

/-- The store does not fail and has a record under each of the keys and under no other; nobody asked
for a deletion, and no message is longer than the limit. -/
structure Store.Declares (keys : List Key) (s : Store σ) : Prop where
  ready : Operator.Ready s
  keys : ∀ key : Key, s.records[key]?.isSome ↔ key ∈ keys
  stays : ∀ (key : Key) (r : Record σ), s.records[key]? = some r →
    r.metadata.isDeletionRequested = false
  brief : ∀ (key : Key) (r : Record σ), s.records[key]? = some r →
    r.status.message.length ≤ messageLimit

/-- The stores have the records that the manifest declares. -/
def Site.Declares (m : Manifest) (site : Site) : Prop :=
  ∀ kind, (site.store kind).Declares ((m.entries kind).map Entry.key)

/-- Nothing is asked but that statuses have short messages. -/
def Scope.brief : Scope σ where
  asks
    | .writeStatus r => r.status.message.length ≤ messageLimit
    | _ => True
  calls _ := True

namespace Store

variable {s : Store σ} {keys : List Key}

/-- A write that asks for no deletion and leaves messages short drops no record. -/
theorem Declares.writeWith (declares : s.Declares keys) (operation : String) (incoming : Record σ)
    {change : Record σ → Record σ} (own : ∀ r, (change r).key = r.key)
    (stays : ∀ r, (change r).metadata.isDeletionRequested = r.metadata.isDeletionRequested)
    (brief : ∀ r, r.status.message.length ≤ messageLimit →
      (change r).status.message.length ≤ messageLimit) :
    (s.writeWith operation incoming change).2.Declares keys := by
  have lookup (key : Key) :
      (s.writeWith operation incoming change).2.records[key]? = s.records[key]? ∨
        ∃ stored, s.records[key]? = some stored ∧
          (s.writeWith operation incoming change).2.records[key]? =
            some (bumped (change stored)) := by
    obtain same | ⟨stored, _, found, _, _, after⟩ :=
      writeWith_lookup declares.ready.filed operation incoming change own key
    · exact .inl same
    · rw [stays, declares.stays key stored found, if_neg fun gone => nomatch gone.1] at after
      exact .inr ⟨stored, found, after⟩
  refine ⟨⟨writeWith_filed declares.ready.filed, writeWith_sound declares.ready.sound _ _ _⟩,
    fun key => ?_, fun key r found => ?_, fun key r found => ?_⟩
  · obtain same | ⟨stored, before, after⟩ := lookup key
    · rw [same]
      exact declares.keys key
    · rw [after, ← declares.keys key, before]
      rfl
  · obtain same | ⟨stored, before, after⟩ := lookup key
    · exact declares.stays key r (same ▸ found)
    · cases found.symm.trans after
      rw [bumped_isDeletionRequested, stays]
      exact declares.stays key stored before
  · obtain same | ⟨stored, before, after⟩ := lookup key
    · exact declares.brief key r (same ▸ found)
    · cases found.symm.trans after
      exact brief stored (declares.brief key stored before)

end Store

namespace Site

variable {site : Site} {kind : Kind} {m : Manifest}

theorem Declares.setStore (declares : site.Declares m) {s : Store kind.Spec}
    (own : s.Declares ((m.entries kind).map Entry.key)) : (site.setStore kind s).Declares m := by
  intro other
  by_cases same : other = kind
  · subst same
    rw [store_setStore]
    exact own
  · rw [store_setStore_of_ne same]
    exact declares other

end Site

/-! ## The run up to the summary -/

namespace Operator

variable {o : Operator} {m : Manifest}

/-- The stores have what the manifest declares, and no suspended reconcile is about to change
that. -/
abbrev Declares (m : Manifest) (o : Operator) : Prop := o.Within (fun _ => .brief) (Site.Declares m)

end Operator

/-! ## What the summary tells -/

namespace Key

/-- Namespaces count first, names within a namespace. -/
def Precedes (a b : Key) : Prop := a.ns < b.ns ∨ a.ns = b.ns ∧ a.name < b.name

end Key

/-- The lines tell of these entries, once of each and in the order of their keys; all of them have
settled, and no message is longer than the limit. -/
structure SummaryLine.Tell (kind : Kind) (entries : List (Entry kind.Spec))
    (lines : List SummaryLine) : Prop where
  kind : ∀ line ∈ lines, line.kind = kind.definition.kind
  keys : (lines.map SummaryLine.key).Perm (entries.map Entry.key)
  ordered : (lines.map SummaryLine.key).Pairwise Key.Precedes
  settled : ∀ line ∈ lines, line.phase = some .succeeded ∨ line.phase = some .failed
  brief : ∀ line ∈ lines, line.message.length ≤ messageLimit

namespace Operator

variable {m : Manifest}

/-- The lines of the plain entries come first, then those of the linked entries. -/
def Tells (m : Manifest) (lines : List SummaryLine) : Prop :=
  ∃ plain linked, lines = plain ++ linked ∧ SummaryLine.Tell .plain m.plain plain ∧
    SummaryLine.Tell .linked m.linked linked

end Operator

/-! ## The command -/

namespace Cli

variable {files : String → Option String} {options : RunOptions} {settings : Settings}
variable {m : Manifest}

end Cli

end Steward
