import Mathlib.Logic.Basic
import Steward.Queue

/-!
# The parts of the work queue agree

The waiting keys, the marks and the keys that workers hold are kept apart, and every operation
changes more than one of them.  `Sound` says how they fit together while certain keys are handed
out; each operation keeps it.
-/

namespace Steward.WorkQueue

variable {q : WorkQueue} {held : List Key} {key k : Key}

/-- The parts of a queue fit together, where `held` are the keys that were handed out and not given
back. -/
structure Sound (q : WorkQueue) (held : List Key) : Prop where
  waiting_nodup : q.waiting.Nodup
  marked : ∀ key ∈ q.waiting, key ∈ q.dirty
  free : ∀ key ∈ q.waiting, key ∉ q.processing
  placed : ∀ key ∈ q.dirty, key ∈ q.waiting ∨ key ∈ q.processing
  held_nodup : held.Nodup
  mem_held : ∀ key, key ∈ q.processing ↔ key ∈ held

theorem sound_empty : Sound {} [] where
  waiting_nodup := List.nodup_nil
  marked := nofun
  free := nofun
  placed _ dirty := absurd dirty Std.ExtTreeSet.not_mem_empty
  held_nodup := List.nodup_nil
  mem_held _ := iff_of_false Std.ExtTreeSet.not_mem_empty List.not_mem_nil

theorem mem_insert_iff {t : Std.ExtTreeSet Key compare} : k ∈ t.insert key ↔ k = key ∨ k ∈ t := by
  rw [Std.ExtTreeSet.mem_insert, Std.LawfulEqCmp.compare_eq_iff_eq, eq_comm]

theorem mem_erase_iff {t : Std.ExtTreeSet Key compare} : k ∈ t.erase key ↔ k ≠ key ∧ k ∈ t := by
  rw [Std.ExtTreeSet.mem_erase, ne_eq, Std.LawfulEqCmp.compare_eq_iff_eq, eq_comm]

theorem nodup_concat {keys : List Key} (nodup : keys.Nodup) (new : key ∉ keys) :
    (keys ++ [key]).Nodup := by
  rw [List.nodup_append]
  refine ⟨nodup, by simp, ?_⟩
  rintro k old k' last rfl
  exact new (List.mem_singleton.mp last ▸ old)

/-! ## Deadlines -/

/-- The deadlines are of no concern to the rest. -/
theorem Sound.reschedule (sound : q.Sound held) (scheduled : KeyMap Nat)
    (timers : List QueueTimer) : Sound { q with scheduled, timers } held :=
  ⟨sound.waiting_nodup, sound.marked, sound.free, sound.placed, sound.held_nodup, sound.mem_held⟩

/-- To schedule a key changes only deadlines. -/
theorem schedule_eq (q : WorkQueue) (deadline : Nat) (key : Key) :
    ∃ scheduled timers, q.schedule deadline key = { q with scheduled, timers } := by
  rw [schedule]
  split <;> exact ⟨_, _, rfl⟩

/-- To put off an add by nothing is to add; otherwise only deadlines change. -/
theorem addAfter_cases (q : WorkQueue) (now delay : Nat) (key : Key) :
    (delay = 0 ∧ q.addAfter now delay key = q.add key) ∨
    delay ≠ 0 ∧ ∃ scheduled timers, q.addAfter now delay key = { q with scheduled, timers } := by
  by_cases zero : delay = 0
  · refine .inl ⟨zero, ?_⟩
    rw [addAfter]
    by_cases closed : q.closed
    · simp [add, closed]
    · rw [if_neg closed, if_pos zero]
  · refine .inr ⟨zero, ?_⟩
    rw [addAfter]
    simp only [if_neg zero]
    split
    · exact ⟨_, _, rfl⟩
    · exact q.schedule_eq (now + delay) key

/-! ## To add a key -/

theorem insert_eq_self (dirty : key ∈ q.dirty) : q.insert key = q := by
  rw [insert, if_pos (by simpa using dirty)]

theorem insert_eq (clean : key ∉ q.dirty) :
    q.insert key =
      { q with
        dirty := q.dirty.insert key
        waiting := if key ∈ q.processing then q.waiting else q.waiting ++ [key] } := by
  rw [insert, if_neg (by simpa using clean)]
  simp

theorem add_of_opened (opened : q.closed = false) : q.add key = q.insert key := by
  rw [add, if_neg (by simp [opened])]

theorem add_of_closed (closed : q.closed = true) : q.add key = q := if_pos closed

theorem add_eq_self (taken : q.closed = true ∨ key ∈ q.dirty) : q.add key = q := by
  obtain closed | dirty := taken
  · exact add_of_closed closed
  · rw [add, insert_eq_self dirty, ite_self]

@[simp]
theorem closed_insert (q : WorkQueue) (key : Key) : (q.insert key).closed = q.closed := by
  rw [insert]
  split <;> rfl

@[simp]
theorem closed_add (q : WorkQueue) (key : Key) : (q.add key).closed = q.closed := by
  rw [add]
  split
  · rfl
  · exact q.closed_insert key

theorem mem_dirty_insert : k ∈ (q.insert key).dirty ↔ k = key ∨ k ∈ q.dirty := by
  by_cases dirty : key ∈ q.dirty
  · rw [insert_eq_self dirty]
    constructor
    · exact .inr
    · rintro (rfl | old)
      · exact dirty
      · exact old
  · rw [insert_eq dirty]
    exact mem_insert_iff

theorem mem_dirty_add (opened : q.closed = false) :
    k ∈ (q.add key).dirty ↔ k = key ∨ k ∈ q.dirty := by
  rw [add_of_opened opened]
  exact mem_dirty_insert

theorem Sound.insert (sound : q.Sound held) (key : Key) : (q.insert key).Sound held := by
  by_cases dirty : key ∈ q.dirty
  · rw [insert_eq_self dirty]
    exact sound
  have unlisted : key ∉ q.waiting := fun waits => dirty (sound.marked key waits)
  rw [insert_eq dirty]
  by_cases busy : key ∈ q.processing
  · simp only [if_pos busy]
    exact {
      waiting_nodup := sound.waiting_nodup
      marked := fun k waits => mem_insert_iff.mpr (.inr (sound.marked k waits))
      free := sound.free
      placed := by
        intro k dirty
        obtain rfl | old := mem_insert_iff.mp dirty
        · exact .inr busy
        · exact sound.placed k old
      held_nodup := sound.held_nodup
      mem_held := sound.mem_held }
  · simp only [if_neg busy]
    exact {
      waiting_nodup := nodup_concat sound.waiting_nodup unlisted
      marked := by
        intro k waits
        obtain old | last := List.mem_append.mp waits
        · exact mem_insert_iff.mpr (.inr (sound.marked k old))
        · exact mem_insert_iff.mpr (.inl (List.mem_singleton.mp last))
      free := by
        intro k waits
        obtain old | last := List.mem_append.mp waits
        · exact sound.free k old
        · rw [List.mem_singleton.mp last]
          exact busy
      placed := by
        intro k dirty
        obtain rfl | old := mem_insert_iff.mp dirty
        · exact .inl List.mem_concat_self
        · exact (sound.placed k old).imp_left fun waits => List.mem_append_left _ waits
      held_nodup := sound.held_nodup
      mem_held := sound.mem_held }

theorem Sound.add (sound : q.Sound held) (key : Key) : (q.add key).Sound held := by
  rw [WorkQueue.add]
  split
  · exact sound
  · exact sound.insert key

theorem Sound.addAfter (sound : q.Sound held) (now delay : Nat) (key : Key) :
    (q.addAfter now delay key).Sound held := by
  obtain ⟨_, same⟩ | ⟨_, scheduled, timers, same⟩ := q.addAfter_cases now delay key
  · rw [same]
    exact sound.add key
  · rw [same]
    exact sound.reschedule scheduled timers

theorem Sound.expire (sound : q.Sound held) (timer : QueueTimer) :
    (q.expire timer).Sound held := by
  rw [WorkQueue.expire]
  split
  · exact (sound.reschedule _ _).add timer.key
  · exact sound

/-! ## To hand out a key, and to take it back -/

/-- The queue after its first key was handed out. -/
def handedOut (q : WorkQueue) (key : Key) (rest : List Key) : WorkQueue :=
  { q with
    waiting := rest
    dirty := q.dirty.erase key
    processing := q.processing.insert key }

theorem take?_eq_none : q.take? = none ↔ q.waiting = [] := by
  rw [take?]
  cases q.waiting <;> simp

theorem take?_eq_some {q' : WorkQueue} :
    q.take? = some (key, q') ↔ ∃ rest, q.waiting = key :: rest ∧ q' = q.handedOut key rest := by
  rw [take?]
  cases waits : q.waiting with
  | nil => simp
  | cons first rest =>
      simp only [Option.some.injEq, Prod.mk.injEq]
      constructor
      · rintro ⟨rfl, rfl⟩
        exact ⟨rest, rfl, rfl⟩
      · rintro ⟨_, same, rfl⟩
        cases same
        exact ⟨rfl, rfl⟩

theorem Sound.handedOut {rest : List Key} (sound : q.Sound held)
    (first : q.waiting = key :: rest) : (q.handedOut key rest).Sound (key :: held) := by
  have mem_waiting (k : Key) : k ∈ q.waiting ↔ k = key ∨ k ∈ rest := by
    rw [first]
    exact List.mem_cons
  have nodup := sound.waiting_nodup
  rw [first, List.nodup_cons] at nodup
  exact {
    waiting_nodup := nodup.2
    marked := by
      intro k waits
      refine mem_erase_iff.mpr ⟨?_, sound.marked k ((mem_waiting k).mpr (.inr waits))⟩
      rintro rfl
      exact nodup.1 waits
    free := by
      intro k waits busy
      obtain rfl | busy := mem_insert_iff.mp busy
      · exact nodup.1 waits
      · exact sound.free k ((mem_waiting k).mpr (.inr waits)) busy
    placed := by
      intro k dirty
      obtain ⟨other, dirty⟩ := mem_erase_iff.mp dirty
      obtain waits | busy := sound.placed k dirty
      · exact .inl (((mem_waiting k).mp waits).resolve_left other)
      · exact .inr (mem_insert_iff.mpr (.inr busy))
    held_nodup := by
      rw [List.nodup_cons, ← sound.mem_held key]
      exact ⟨sound.free key ((mem_waiting key).mpr (.inl rfl)), sound.held_nodup⟩
    mem_held := by
      intro k
      rw [List.mem_cons, ← sound.mem_held k]
      exact mem_insert_iff }

theorem Sound.done (sound : q.Sound held) (own : key ∈ held) :
    (q.done key).Sound (held.erase key) := by
  have busy : key ∈ q.processing := (sound.mem_held key).mpr own
  have unlisted : key ∉ q.waiting := fun waits => sound.free key waits busy
  have mem_waiting (k : Key) :
      k ∈ (q.done key).waiting ↔ k ∈ q.waiting ∨ k = key ∧ key ∈ q.dirty := by
    rw [WorkQueue.done]
    by_cases dirty : key ∈ q.dirty <;> simp [dirty]
  exact {
    waiting_nodup := by
      rw [WorkQueue.done]
      by_cases dirty : key ∈ q.dirty
      · simpa [dirty] using nodup_concat sound.waiting_nodup unlisted
      · simpa [dirty] using sound.waiting_nodup
    marked := by
      intro k waits
      obtain old | ⟨rfl, dirty⟩ := (mem_waiting k).mp waits
      · exact sound.marked k old
      · exact dirty
    free := by
      intro k waits
      rw [WorkQueue.done, mem_erase_iff]
      rintro ⟨other, busy⟩
      obtain old | ⟨same, _⟩ := (mem_waiting k).mp waits
      · exact sound.free k old busy
      · exact other same
    placed := by
      intro k dirty
      by_cases same : k = key
      · subst same
        exact .inl ((mem_waiting k).mpr (.inr ⟨rfl, dirty⟩))
      · obtain old | busy := sound.placed k dirty
        · exact .inl ((mem_waiting k).mpr (.inl old))
        · exact .inr (mem_erase_iff.mpr ⟨same, busy⟩)
    held_nodup := sound.held_nodup.erase key
    mem_held := by
      intro k
      rw [sound.held_nodup.mem_erase_iff, ← sound.mem_held k]
      exact mem_erase_iff }

/-- In which order the keys were handed out does not matter. -/
theorem Sound.perm {held' : List Key} (sound : q.Sound held) (perm : held.Perm held') :
    q.Sound held' where
  waiting_nodup := sound.waiting_nodup
  marked := sound.marked
  free := sound.free
  placed := sound.placed
  held_nodup := perm.nodup_iff.mp sound.held_nodup
  mem_held key := (sound.mem_held key).trans perm.mem_iff

theorem Sound.close (sound : q.Sound held) : q.close.Sound held :=
  ⟨sound.waiting_nodup, sound.marked, sound.free, sound.placed, sound.held_nodup, sound.mem_held⟩

end Steward.WorkQueue
