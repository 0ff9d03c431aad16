import Steward.Proofs.Store

/-!
# What a store announces

An operation that changes the records of a store announces one change, and no operation takes an
announcement back.  The latest announcement for a key tells whether there is a record under it: there
is one unless the announcement is of a removal.
-/

namespace Steward.Store

variable {σ α : Type} {s t : Store σ}

/-- What an operation makes of the records, and what it announces. -/
inductive Announces (s t : Store σ) : Prop where
  | nothing (records : t.records = s.records) (announced : t.announced = s.announced)
  | filing (kind : ChangeKind) (r : Record σ) (kept : kind ≠ .deleted)
      (records : t.records = s.records.insert r.key r)
      (announced : t.announced = s.announced.push ⟨kind, r.key⟩)
  | removal (key : Key) (records : t.records = s.records.erase key)
      (announced : t.announced = s.announced.push ⟨.deleted, key⟩)

theorem announces_self (s : Store σ) : Announces s s := .nothing rfl rfl

theorem announces_put (s : Store σ) (kind : ChangeKind) (r : Record σ) (kept : kind ≠ .deleted) :
    Announces s (s.put kind r) := .filing kind r kept rfl rfl

theorem announces_drop (s : Store σ) (key : Key) : Announces s (s.drop key) :=
  .removal key rfl rfl

/-- A failure that is pending takes the place of the access. -/
theorem announces_guarded {operation : String} {access : Except Fault α × Store σ}
    (announces : Announces s access.2) : Announces s (s.guarded operation access).2 := by
  obtain ⟨fault, n, refused⟩ | granted := guarded_cases s operation access
  · rw [refused]
    exact .nothing rfl rfl
  · rw [granted]
    exact announces

theorem announces_withRecord {key : Key} {act : Record σ → Except Fault α × Store σ}
    (announces : ∀ stored, Announces s (act stored).2) : Announces s (s.withRecord key act).2 := by
  rw [withRecord]
  split
  · exact announces_self s
  · exact announces _

theorem create_announces (s : Store σ) (r : Record σ) : Announces s (s.create r).2 := by
  refine announces_guarded ?_
  split
  · exact announces_self s
  · exact announces_put s .added _ nofun

theorem requestDeletion_announces (s : Store σ) (now : Instant) (key : Key) :
    Announces s (s.requestDeletion now key).2 := by
  refine announces_guarded (announces_withRecord fun stored => ?_)
  split
  · exact announces_drop s key
  split
  · exact announces_put s .modified _ nofun
  · exact announces_put s .modified _ nofun

theorem writeWith_announces (s : Store σ) (operation : String) (incoming : Record σ)
    (change : Record σ → Record σ) : Announces s (s.writeWith operation incoming change).2 := by
  refine announces_guarded (announces_withRecord fun stored => ?_)
  dsimp only
  split
  · exact announces_self s
  split
  · exact announces_drop s incoming.key
  · exact announces_put s .modified _ nofun

theorem perform_announces [DecidableEq σ] (s : Store σ) (now : Instant) (op : StoreOp σ) :
    Announces s (s.perform now op).2 := by
  cases op with
  | create r =>
      rw [perform, reply_snd]
      exact create_announces s r
  | update r latest =>
      rw [perform, reply_snd]
      exact writeWith_announces s _ _ _
  | updateStatus r latest =>
      rw [perform, reply_snd]
      exact writeWith_announces s _ _ _
  | applySpec key spec =>
      rw [perform, reply_snd]
      exact announces_guarded (announces_withRecord fun stored => announces_put s .modified _ nofun)
  | annotate key name value =>
      rw [perform, reply_snd]
      exact announces_guarded (announces_withRecord fun stored => announces_put s .modified _ nofun)
  | requestDeletion key =>
      rw [perform, reply_snd]
      exact requestDeletion_announces s now key
  | get key =>
      rw [perform, reply_snd]
      exact announces_guarded (announces_self s)
  | readStatus key =>
      rw [perform, reply_snd]
      exact announces_guarded (announces_self s)
  | contains | list | size | failNext => exact .nothing rfl rfl

/-! ## Reading the announcements -/

/-- An announcement stays where it is. -/
theorem Announces.announced_getElem? (announces : Announces s t) {p : Nat} {change : Change}
    (published : s.announced[p]? = some change) : t.announced[p]? = some change := by
  have within : p < s.announced.size := (Array.getElem?_eq_some_iff.mp published).1
  cases announces with
  | nothing _ announced =>
      rw [announced]
      exact published
  | filing _ _ _ _ announced | removal _ _ announced =>
      rw [announced, Array.getElem?_push_lt within]
      rw [Array.getElem?_eq_getElem within] at published
      exact published

/-- The announcement at `p` is the latest one for its key. -/
structure Latest (s : Store σ) (p : Nat) (change : Change) : Prop where
  published : s.announced[p]? = some change
  last : ∀ q later, p < q → s.announced[q]? = some later → later.key ≠ change.key

/-- A new announcement is the latest one for its key, and no other key is concerned. -/
theorem Latest.of_push {p : Nat} {change new : Change} (latest : t.Latest p change)
    (announced : t.announced = s.announced.push new) :
    change = new ∨ new.key ≠ change.key ∧ s.Latest p change := by
  have published := latest.published
  have newest : t.announced[s.announced.size]? = some new := by
    rw [announced, Array.getElem?_push_size]
  rw [announced, Array.getElem?_push] at published
  split at published
  · exact .inl (Option.some.inj published).symm
  have within : p < s.announced.size := (Array.getElem?_eq_some_iff.mp published).1
  refine .inr ⟨latest.last _ new within newest, published, fun q later after shown => ?_⟩
  have below : q < s.announced.size := (Array.getElem?_eq_some_iff.mp shown).1
  refine latest.last q later after ?_
  rw [announced, Array.getElem?_push, if_neg (Nat.ne_of_lt below)]
  exact shown

/-- To every announcement there is a latest one for its key. -/
theorem exists_latest {q : Nat} {change : Change} (published : s.announced[q]? = some change) :
    ∃ p latest, q ≤ p ∧ s.Latest p latest ∧ latest.key = change.key := by
  by_cases last : ∀ p later, q < p → s.announced[p]? = some later → later.key ≠ change.key
  · exact ⟨q, change, Nat.le_refl q, ⟨published, last⟩, rfl⟩
  simp only [not_forall, ne_eq, not_not, exists_prop] at last
  obtain ⟨next, later, after, shown, same⟩ := last
  have within : next < s.announced.size := (Array.getElem?_eq_some_iff.mp shown).1
  obtain ⟨p, latest, further, is, own⟩ := exists_latest shown
  exact ⟨p, latest, Nat.le_trans (Nat.le_of_lt after) further, is, own.trans same⟩
termination_by s.announced.size - q

/-- Of the announcements from `start` on, the latest one for a key tells whether there is a record
under it. -/
def Told (s : Store σ) (start : Nat) : Prop :=
  ∀ p change, start ≤ p → s.Latest p change → (change.key ∈ s.records ↔ change.kind ≠ .deleted)

/-- Nothing has been announced yet from the end on. -/
theorem told_size (s : Store σ) : s.Told s.announced.size := by
  intro p change beyond latest
  have within := (Array.getElem?_eq_some_iff.mp latest.published).1
  exact absurd within (Nat.not_lt_of_le beyond)

theorem Announces.told {start : Nat} (announces : Announces s t) (told : s.Told start) :
    t.Told start := by
  intro p change since latest
  cases announces with
  | nothing records announced =>
      rw [records]
      refine told p change since ⟨announced ▸ latest.published, fun q later after shown => ?_⟩
      exact latest.last q later after (announced ▸ shown)
  | filing kind r kept records announced =>
      rw [records, Std.ExtTreeMap.mem_insert, Std.LawfulEqCmp.compare_eq_iff_eq]
      obtain rfl | ⟨other, latest⟩ := latest.of_push announced
      · exact iff_of_true (.inl rfl) kept
      · rw [or_iff_right other]
        exact told p change since latest
  | removal key records announced =>
      rw [records, Std.ExtTreeMap.mem_erase, ne_eq, Std.LawfulEqCmp.compare_eq_iff_eq]
      obtain rfl | ⟨other, latest⟩ := latest.of_push announced
      · exact iff_of_false (fun remains => remains.1 rfl) (fun kept => kept rfl)
      · rw [and_iff_right other]
        exact told p change since latest

end Steward.Store
