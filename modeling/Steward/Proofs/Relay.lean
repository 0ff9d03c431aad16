import Steward.Proofs.Announcements
import Steward.Proofs.Crew
import Steward.Proofs.Scene
import Steward.Watch

/-!
# From a store to the queue

A relay is a store together with the watch of its changes and the queue that the watch feeds.  The
watch reads whenever it gets to it, others write to the store and use the queue in between, and the
queue stays open.  What the watch goes past it either reads, and then adds the key of a change that
was no removal, or loses, because it had fallen too far behind.
-/

namespace Steward

variable {σ ω : Type}

structure Relay (σ ω : Type) where
  store : Store σ
  watch : Watch
  floor : Floor ω

/-- A reader gets what is at its place, if this is still kept. -/
theorem Feed.read_eq_next {α : Type} {feed : Feed α} {place : Nat} {item : α} :
    (feed.read place).1 = .next item ↔
      feed.oldest ≤ place ∧ feed.announced[place]? = some item := by
  rw [read]
  by_cases lagging : place < feed.oldest
  · rw [if_pos lagging]
    exact iff_of_false nofun fun shown => Nat.not_le_of_lt lagging shown.1
  · rw [if_neg lagging, and_iff_right (Nat.le_of_not_lt lagging)]
    cases feed.announced[place]? <;> simp

namespace Relay

inductive Move (σ ω : Type) where
  /-- Someone uses the store. -/
  | write (now : Instant) (op : StoreOp σ)
  /-- The watch reads, if there is anything to read. -/
  | read
  /-- Someone uses the queue, and does not close it. -/
  | work (floor : Floor ω) (opened : floor.queue.closed = false)

section

variable [DecidableEq σ]

def after (r : Relay σ ω) : Move σ ω → Relay σ ω
  | .write now op => { r with store := (r.store.perform now op).2 }
  | .read =>
      match r.watch.step? r.store.feed false r.floor with
      | some (watch, floor) => { r with watch, floor }
      | none => r
  | .work floor _ => { r with floor }

def run (r : Relay σ ω) (moves : List (Move σ ω)) : Relay σ ω := moves.foldl after r

end

/-- A watch begins with the change that comes next. -/
def subscribed (s : Store σ) (floor : Floor ω) : Relay σ ω :=
  { store := s, watch := { place := s.announced.size }, floor }

/-- The watch goes on, and the queue is open. -/
structure Live (r : Relay σ ω) : Prop where
  ongoing : r.watch.ended = false
  opened : r.floor.queue.closed = false

/-! ## What the watch does -/

variable [DecidableEq σ] {r : Relay σ ω}

/-- The watch reads the change at `p`, which is of `key`, and adds the key. -/
structure Adds (r : Relay σ ω) (p : Nat) (key : Key) : Prop where
  place : r.watch.place = p
  reads : ∃ change, (r.store.feed.read p).1 = .next change ∧ change.key = key
  added : (r.after .read).floor = r.floor.add key
  marked : key ∈ (r.after .read).floor.queue.dirty

/-- The watch is told that changes were lost, that at `p` among them: from `p` on more have been
announced than are kept for it. -/
structure Loses (r : Relay σ ω) (p : Nat) : Prop where
  told : ∃ lost, (r.store.feed.read r.watch.place).1 = .lagged lost ∧
    r.watch.place ≤ p ∧ p < r.watch.place + lost
  behind : p + Store.lookBack < r.store.announced.size

/-- A live watch reads the next change, or goes past those that it lost, or finds nothing. -/
theorem after_read_cases (live : r.Live) :
    (∃ change, r.store.announced.size ≤ r.watch.place + Store.lookBack ∧
      r.store.announced[r.watch.place]? = some change ∧
      r.store.feed.read r.watch.place = (.next change, r.watch.place + 1) ∧
      r.after .read =
        { r with
          watch := { place := r.watch.place + 1 }
          floor := (Watch.keyOf? change).elim r.floor r.floor.add }) ∨
    (r.watch.place + Store.lookBack < r.store.announced.size ∧
      r.store.feed.read r.watch.place =
        (.lagged (r.store.announced.size - Store.lookBack - r.watch.place),
          r.store.announced.size - Store.lookBack) ∧
      r.after .read =
        { r with watch := { place := r.store.announced.size - Store.lookBack } }) ∨
    r.store.announced.size ≤ r.watch.place ∧ r.after .read = r := by
  have oldest : r.store.feed.oldest = r.store.announced.size - Store.lookBack := rfl
  have stillOpen (change : Change) :
      ((Watch.keyOf? change).elim r.floor r.floor.add).queue.closed = false := by
    cases Watch.keyOf? change with
    | none => exact live.opened
    | some key => exact (WorkQueue.closed_add _ _).trans live.opened
  by_cases lagging : r.watch.place < r.store.announced.size - Store.lookBack
  · have reading : r.store.feed.read r.watch.place =
        (.lagged (r.store.announced.size - Store.lookBack - r.watch.place),
          r.store.announced.size - Store.lookBack) := by
      rw [Feed.read, oldest, if_pos lagging]
    refine .inr (.inl ⟨Nat.add_lt_of_lt_sub lagging, reading, ?_⟩)
    rw [after, Watch.step?, live.ongoing, reading]
    simp only [live.opened]
    rfl
  cases shown : r.store.announced[r.watch.place]? with
  | some change =>
      have reading : r.store.feed.read r.watch.place = (.next change, r.watch.place + 1) := by
        rw [Feed.read, oldest, if_neg lagging]
        exact shown ▸ rfl
      refine .inl ⟨change, Nat.le_add_of_sub_le (Nat.le_of_not_lt lagging), rfl, reading, ?_⟩
      rw [after, Watch.step?, live.ongoing, reading]
      simp only [stillOpen]
      rfl
  | none =>
      have reading : r.store.feed.read r.watch.place = (.empty, r.watch.place) := by
        rw [Feed.read, oldest, if_neg lagging]
        exact shown ▸ rfl
      refine .inr (.inr ⟨Array.getElem?_eq_none_iff.mp shown, ?_⟩)
      rw [after, Watch.step?, live.ongoing, reading]
      rfl

theorem Live.after (live : r.Live) (move : Move σ ω) : (r.after move).Live := by
  cases move with
  | write now op => exact ⟨live.ongoing, live.opened⟩
  | work floor opened => exact ⟨live.ongoing, opened⟩
  | read =>
      obtain ⟨change, _, _, _, read⟩ | ⟨_, _, lost⟩ | ⟨_, idle⟩ := after_read_cases live
      · rw [read]
        refine ⟨rfl, ?_⟩
        cases Watch.keyOf? change with
        | none => exact live.opened
        | some key => exact (WorkQueue.closed_add _ _).trans live.opened
      · rw [lost]
        exact ⟨rfl, live.opened⟩
      · rw [idle]
        exact live

theorem store_after_read (live : r.Live) : (r.after .read).store = r.store := by
  obtain ⟨_, _, _, _, read⟩ | ⟨_, _, lost⟩ | ⟨_, idle⟩ := after_read_cases live
  · rw [read]
  · rw [lost]
  · rw [idle]

/-! ## What a run does -/

theorem Live.run (live : r.Live) (moves : List (Move σ ω)) : (r.run moves).Live := by
  induction moves generalizing r with
  | nil => exact live
  | cons move moves ih => exact ih (live.after move)

/-- What has been announced stays announced, and told. -/
theorem after_announces (live : r.Live) (move : Move σ ω) :
    r.store.Announces (r.after move).store := by
  cases move with
  | write now op => exact r.store.perform_announces now op
  | read =>
      rw [store_after_read live]
      exact r.store.announces_self
  | work => exact r.store.announces_self

theorem run_published (live : r.Live) {p : Nat} {change : Change}
    (published : r.store.announced[p]? = some change) (moves : List (Move σ ω)) :
    (r.run moves).store.announced[p]? = some change := by
  induction moves generalizing r with
  | nil => exact published
  | cons move moves ih =>
      exact ih (live.after move) ((after_announces live move).announced_getElem? published)

theorem run_told (live : r.Live) {start : Nat} (told : r.store.Told start)
    (moves : List (Move σ ω)) : (r.run moves).store.Told start := by
  induction moves generalizing r with
  | nil => exact told
  | cons move moves ih => exact ih (live.after move) ((after_announces live move).told told)

/-- What the watch goes past, it has read or lost. -/
theorem read_or_lost (live : r.Live) (moves : List (Move σ ω)) {p : Nat}
    (ahead : r.watch.place ≤ p) (past : p < (r.run moves).watch.place) :
    ∃ earlier later, moves = earlier ++ .read :: later ∧
      ((∃ change, (r.run earlier).watch.place = p ∧
          (r.run earlier).store.announced[p]? = some change ∧
          ((r.run earlier).store.feed.read p).1 = .next change ∧
          ((r.run earlier).after .read).floor =
            (Watch.keyOf? change).elim (r.run earlier).floor (r.run earlier).floor.add) ∨
        (r.run earlier).Loses p) := by
  induction moves generalizing r with
  | nil => exact absurd past (Nat.not_lt_of_le ahead)
  | cons move moves ih =>
      by_cases still : (r.after move).watch.place ≤ p
      · obtain ⟨earlier, later, rfl, found⟩ := ih (live.after move) still past
        exact ⟨move :: earlier, later, rfl, found⟩
      have moved : (r.after move).watch.place ≠ r.watch.place := fun same => still (same ▸ ahead)
      cases move with
      | write | work => exact absurd rfl moved
      | read =>
          refine ⟨[], moves, rfl, ?_⟩
          obtain ⟨change, _, shown, reading, read⟩ | ⟨behind, reading, lost⟩ | ⟨_, idle⟩ :=
            after_read_cases live
          · rw [read] at still
            obtain rfl : p = r.watch.place := by
              have := Nat.lt_of_not_le still
              exact Nat.le_antisymm (Nat.le_of_lt_succ this) ahead
            refine .inl ⟨change, rfl, shown, congrArg Prod.fst reading, ?_⟩
            change (r.after .read).floor = _
            rw [read]
            rfl
          · rw [lost] at still
            have before : p < r.store.announced.size - Store.lookBack := Nat.lt_of_not_le still
            refine .inr ⟨⟨_, congrArg Prod.fst reading, ahead, ?_⟩, Nat.add_lt_of_lt_sub before⟩
            change p < r.watch.place + (r.store.announced.size - Store.lookBack - r.watch.place)
            omega
          · exact absurd (congrArg (fun r => r.watch.place) idle) moved

/-! ## A burst that is longer than what is kept -/

theorem run_append (r : Relay σ ω) (moves more : List (Move σ ω)) :
    r.run (moves ++ more) = (r.run moves).run more := List.foldl_append

/-- A watch that lost nothing yet and has that much to read moves on with every read. -/
theorem run_reads (live : r.Live) (n : Nat)
    (kept : r.store.announced.size ≤ r.watch.place + Store.lookBack)
    (enough : r.watch.place + n ≤ r.store.announced.size) :
    (r.run (List.replicate n .read)).watch.place = r.watch.place + n := by
  induction n generalizing r with
  | zero => rfl
  | succ n ih =>
      obtain ⟨_, _, _, _, read⟩ | ⟨behind, _⟩ | ⟨ended, _⟩ := after_read_cases live
      · have next := ih (live.after .read)
        simp only [read] at next
        rw [List.replicate_succ]
        change ((r.after .read).run _).watch.place = _
        rw [read, next (by omega) (by omega)]
        omega
      · omega
      · omega

theorem store_run_reads (live : r.Live) (n : Nat) :
    (r.run (List.replicate n .read)).store = r.store := by
  induction n generalizing r with
  | zero => rfl
  | succ n ih =>
      rw [List.replicate_succ]
      exact (ih (live.after .read)).trans (store_after_read live)

/-- A record that is written over and over fills the announcements. -/
theorem run_annotations (now : Instant) {key other : Key} (name value : String)
    (sound : r.store.faults = 0) {stored : Record σ}
    (found : r.store.records[key]? = some stored) (own : stored.key = key)
    (present : other ∈ r.store.records) (n : Nat) :
    (r.run (List.replicate n (.write now (.annotate key name value)))).store.announced.toList =
        r.store.announced.toList ++ List.replicate n ⟨.modified, key⟩ ∧
      other ∈ (r.run (List.replicate n (.write now (.annotate key name value)))).store.records := by
  induction n generalizing r stored with
  | zero => exact ⟨(List.append_nil _).symm, present⟩
  | succ n ih =>
      obtain ⟨updated, same, written⟩ : ∃ updated : Record σ, updated.key = key ∧
          r.after (.write now (.annotate key name value)) =
            { r with store := r.store.put .modified updated } := by
        rw [after, Store.perform, Store.annotate, Store.guarded_of_sound sound, Store.withRecord,
          found]
        refine ⟨_, ?_, rfl⟩
        exact own
      have there : other ∈ (r.store.put .modified updated).records :=
        Std.ExtTreeMap.mem_insert.mpr (.inr present)
      have here : (r.store.put .modified updated).records[key]? = some updated := by
        rw [← same]
        exact Std.ExtTreeMap.getElem?_insert_self
      have further := ih (r := { r with store := r.store.put .modified updated }) sound here same
        there
      rw [List.replicate_succ]
      change ((r.after _).run _).store.announced.toList = _ ∧
        other ∈ ((r.after _).run _).store.records
      rw [written]
      refine ⟨further.1.trans ?_, further.2⟩
      change (r.store.announced.push ⟨.modified, updated.key⟩).toList ++ _ = _
      rw [same, Array.toList_push, List.append_assoc]
      rfl

open Scene

def firstKey : Key := ⟨"default", "first"⟩

/-- A record is filed, and then another one is filed and written to `n` times. -/
def burst (n : Nat) : List (Move Plain Unit) :=
  [.write sampleInstant (.create { metadata := { key := firstKey }, spec := { id := "vm-0" } }),
    .write sampleInstant (.create sampleRecord)] ++
  List.replicate n (.write sampleInstant (.annotate sampleKey "note" "again"))

def beforeBurst : Relay Plain Unit := subscribed {} {}

theorem live_beforeBurst : beforeBurst.Live := ⟨rfl, rfl⟩

theorem run_burst (n : Nat) :
    (beforeBurst.run (burst n)).store.announced.toList =
        ⟨.added, firstKey⟩ :: ⟨.added, sampleKey⟩ :: List.replicate n ⟨.modified, sampleKey⟩ ∧
      firstKey ∈ (beforeBurst.run (burst n)).store.records ∧
      sampleKey ∈ (beforeBurst.run (burst n)).store.records := by
  have filed : (beforeBurst.run (burst 0)).store.records[sampleKey]? = some _ := rfl
  have present (key : Key)
      (there : (beforeBurst.run (burst 0)).store.records[key]?.isSome = true) :=
    run_annotations sampleInstant "note" "again" rfl filed rfl
      (Std.ExtTreeMap.mem_iff_isSome_getElem?.mpr there) n
  exact ⟨(present firstKey rfl).1, (present firstKey rfl).2, (present sampleKey rfl).2⟩

theorem size_after_burst (n : Nat) :
    (beforeBurst.run (burst n)).store.announced.size = n + 2 := by
  rw [← Array.length_toList, (run_burst n).1, List.length_cons, List.length_cons,
    List.length_replicate]

theorem watch_after_writes (moves : List (Move σ ω)) (r : Relay σ ω)
    (writes : ∀ move ∈ moves, ∃ now op, move = .write now op) :
    (r.run moves).watch = r.watch := by
  induction moves generalizing r with
  | nil => rfl
  | cons move moves ih =>
      obtain ⟨now, op, rfl⟩ := writes move List.mem_cons_self
      exact ih _ fun later member => writes later (List.mem_cons_of_mem _ member)

theorem writes_of_mem_burst {n : Nat} {move : Move Plain Unit} (member : move ∈ burst n) :
    ∃ now op, move = .write now op := by
  simp only [burst, List.cons_append, List.nil_append, List.mem_cons, List.mem_replicate] at member
  obtain rfl | rfl | ⟨_, rfl⟩ := member <;> exact ⟨_, _, rfl⟩

/-- Of a burst only the first change is of the record that was filed first. -/
theorem first_of_burst {n p : Nat} {change : Change}
    (published : (beforeBurst.run (burst n)).store.announced[p]? = some change)
    (own : change.key = firstKey) : p = 0 := by
  rw [← Array.getElem?_toList, (run_burst n).1] at published
  have other : firstKey ≠ sampleKey := by decide
  match p with
  | 0 => rfl
  | 1 =>
      cases published
      exact absurd own.symm other
  | p + 2 =>
      have later : (List.replicate n (⟨.modified, sampleKey⟩ : Change))[p]? = some change :=
        published
      rw [List.eq_of_mem_replicate (List.mem_of_getElem? later)] at own
      exact absurd own.symm other

section

variable {n m p : Nat} {earlier later : List (Move Plain Unit)}

theorem store_burst_reads (n m : Nat) :
    (beforeBurst.run (burst n ++ List.replicate m .read)).store =
      (beforeBurst.run (burst n)).store := by
  rw [run_append]
  exact store_run_reads (live_beforeBurst.run (burst n)) m

/-- After a burst of one change more than is kept, the watch skips the first change and reads the
others. -/
theorem place_burst_reads (kept : Store.lookBack = n + 1) :
    (beforeBurst.run (burst n ++ List.replicate (n + 2) .read)).watch.place = n + 2 := by
  have live := live_beforeBurst.run (burst n)
  have size := size_after_burst n
  have start : (beforeBurst.run (burst n)).watch.place = 0 :=
    congrArg Watch.place
      (watch_after_writes (burst n) beforeBurst fun _ member => writes_of_mem_burst member)
  have skipped : ((beforeBurst.run (burst n)).after .read).watch.place = 1 := by
    obtain ⟨_, within, _⟩ | ⟨_, _, lost⟩ | ⟨ended, _⟩ := after_read_cases live
    · omega
    · rw [lost]
      change (beforeBurst.run (burst n)).store.announced.size - Store.lookBack = 1
      omega
    · omega
  have same := store_after_read live
  have reads := run_reads (live.after .read) (n + 1) (by rw [same]; omega) (by rw [same]; omega)
  rw [run_append, List.replicate_succ]
  exact reads.trans (by rw [skipped]; omega)

/-- Whenever the watch reads, the burst is over. -/
theorem store_before_read
    (split : burst n ++ List.replicate m .read = earlier ++ .read :: later) :
    (beforeBurst.run earlier).store = (beforeBurst.run (burst n)).store := by
  obtain ⟨k, rfl⟩ : ∃ k, earlier = burst n ++ List.replicate k .read := by
    obtain ⟨more, same, rest⟩ | ⟨more, same, rest⟩ := List.append_eq_append_iff.mp split
    · exact ⟨more.length, by rw [same, ← (List.append_eq_replicate_iff.mp rest.symm).2.1]⟩
    · cases more with
      | nil => exact ⟨0, by rw [same, List.replicate_zero, List.append_nil, List.append_nil]⟩
      | cons move more =>
          cases rest
          have member : Move.read ∈ burst n := by
            rw [same]
            exact List.mem_append_right _ List.mem_cons_self
          obtain ⟨_, _, write⟩ := writes_of_mem_burst member
          cases write
  exact store_burst_reads n k

/-- The first change of the burst is not kept, so its key is not added. -/
theorem not_adds_first (kept : Store.lookBack = n + 1)
    (split : burst n ++ List.replicate m .read = earlier ++ .read :: later) :
    ¬ (beforeBurst.run earlier).Adds p firstKey := by
  rintro ⟨-, ⟨change, reads, own⟩, -, -⟩
  obtain ⟨within, published⟩ := Feed.read_eq_next.mp reads
  rw [store_before_read split] at within published
  obtain rfl := first_of_burst published own
  have size := size_after_burst n
  have oldest : (beforeBurst.run (burst n)).store.feed.oldest =
    (beforeBurst.run (burst n)).store.announced.size - Store.lookBack := rfl
  omega

/-- The other changes of the burst are kept, so none of them is lost. -/
theorem not_loses_later (kept : Store.lookBack = n + 1)
    (split : burst n ++ List.replicate m .read = earlier ++ .read :: later) (after : p ≠ 0) :
    ¬ (beforeBurst.run earlier).Loses p := by
  rintro ⟨-, behind⟩
  rw [store_before_read split, size_after_burst n] at behind
  omega

end

/-! ## The latest change reaches the queue, or is lost -/

/-- A watch that got to the end of what was announced has added the key of every record that was
written since it began, after the latest change of that record, unless it lost this change. -/
theorem latest_change_reaches_queue (s : Store σ) {floor : Floor ω}
    (opened : floor.queue.closed = false) (moves : List (Move σ ω)) {key : Key} {change : Change}
    (consumed : ((subscribed s floor).run moves).watch.place =
      ((subscribed s floor).run moves).store.announced.size)
    (stored : key ∈ ((subscribed s floor).run moves).store.records)
    {q : Nat} (since : s.announced.size ≤ q)
    (changed : ((subscribed s floor).run moves).store.announced[q]? = some change)
    (own : change.key = key) :
    ∃ p latest earlier later, q ≤ p ∧
      ((subscribed s floor).run moves).store.Latest p latest ∧ latest.key = key ∧
      moves = earlier ++ .read :: later ∧
      (((subscribed s floor).run earlier).Adds p key ∨
        ((subscribed s floor).run earlier).Loses p) := by
  have live : (subscribed s floor).Live := ⟨rfl, opened⟩
  obtain ⟨p, latest, after, last, same⟩ := Store.exists_latest changed
  have kept : latest.kind ≠ .deleted :=
    (run_told live s.told_size moves p latest (Nat.le_trans since after) last).mp
      (by rw [same, own]; exact stored)
  have within := (Array.getElem?_eq_some_iff.mp last.published).1
  obtain ⟨earlier, later, rfl, found⟩ := read_or_lost live moves (Nat.le_trans since after)
    (by rw [consumed]; exact within)
  refine ⟨p, latest, earlier, later, after, last, same.trans own, rfl, ?_⟩
  obtain ⟨shown, here, published, reads, added⟩ | loses := found
  · have published := run_published (live.run earlier) published (.read :: later)
    rw [run, run, ← List.foldl_append] at published
    cases published.symm.trans last.published
    have keyed : Watch.keyOf? latest = some key := by
      rw [Watch.keyOf?, same, own]
      cases kind : latest.kind with
      | added | modified => rfl
      | deleted => exact absurd kind kept
    rw [keyed] at added
    refine .inl ⟨here, ⟨latest, reads, same.trans own⟩, added, ?_⟩
    rw [added]
    exact (WorkQueue.mem_dirty_add (live.run earlier).opened).mpr (.inl rfl)
  · exact .inr loses

/-- A watch that begins to read only after a burst of one change more than is kept for it loses the
only change of the record that was filed first, and reads the latest of the other one. -/
theorem latest_change_reaches_queue_of_burst :
    (∃ earlier later,
      burst (Store.lookBack - 1) ++ List.replicate (Store.lookBack + 1) .read =
        earlier ++ .read :: later ∧ (beforeBurst.run earlier).Loses 0) ∧
    ∃ p earlier later, p ≠ 0 ∧
      burst (Store.lookBack - 1) ++ List.replicate (Store.lookBack + 1) .read =
        earlier ++ .read :: later ∧ (beforeBurst.run earlier).Adds p sampleKey := by
  obtain ⟨n, kept⟩ : ∃ n, Store.lookBack = n + 1 := ⟨1023, rfl⟩
  rw [kept, Nat.add_sub_cancel]
  have store := store_burst_reads n (n + 2)
  have announced := (run_burst n).1
  have present := (run_burst n).2
  rw [← store] at announced present
  have consumed : (beforeBurst.run (burst n ++ List.replicate (n + 2) .read)).watch.place =
      (beforeBurst.run (burst n ++ List.replicate (n + 2) .read)).store.announced.size := by
    rw [place_burst_reads kept, store, size_after_burst]
  constructor
  · have first : (beforeBurst.run (burst n ++ List.replicate (n + 2) .read)).store.announced[0]? =
        some ⟨.added, firstKey⟩ := by
      rw [← Array.getElem?_toList, announced]
      rfl
    obtain ⟨p, latest, earlier, later, -, last, own, split, adds | loses⟩ :=
      latest_change_reaches_queue {} rfl _ consumed present.1 (Nat.le_refl 0) first rfl
    · exact absurd adds (not_adds_first kept split)
    · have published :
          (beforeBurst.run (burst n ++ List.replicate (n + 2) .read)).store.announced[p]? =
            some latest := last.published
      rw [store] at published
      obtain rfl := first_of_burst published own
      exact ⟨earlier, later, split, loses⟩
  · have second : (beforeBurst.run (burst n ++ List.replicate (n + 2) .read)).store.announced[1]? =
        some ⟨.added, sampleKey⟩ := by
      rw [← Array.getElem?_toList, announced]
      rfl
    obtain ⟨p, latest, earlier, later, after, -, -, split, adds | loses⟩ :=
      latest_change_reaches_queue {} rfl _ consumed present.2 (Nat.zero_le 1) second rfl
    · exact ⟨p, earlier, later, Nat.ne_of_gt after, split, adds⟩
    · exact absurd loses (not_loses_later kept split (Nat.ne_of_gt after))

/-- A watch that begins to read only after a burst of one change more than is kept for it reads all
that is left, and never adds the key of the record that was filed first. -/
theorem burst_overtakes_watch :
    (beforeBurst.run (burst (Store.lookBack - 1) ++
        List.replicate (Store.lookBack + 1) .read)).watch.place =
      (beforeBurst.run (burst (Store.lookBack - 1) ++
        List.replicate (Store.lookBack + 1) .read)).store.announced.size ∧
    firstKey ∈ (beforeBurst.run (burst (Store.lookBack - 1) ++
      List.replicate (Store.lookBack + 1) .read)).store.records ∧
    (beforeBurst.run (burst (Store.lookBack - 1) ++
        List.replicate (Store.lookBack + 1) .read)).store.announced[0]? =
      some ⟨.added, firstKey⟩ ∧
    ∀ earlier later p,
      burst (Store.lookBack - 1) ++ List.replicate (Store.lookBack + 1) .read =
        earlier ++ .read :: later →
      ¬ (beforeBurst.run earlier).Adds p firstKey := by
  obtain ⟨n, kept⟩ : ∃ n, Store.lookBack = n + 1 := ⟨1023, rfl⟩
  rw [kept, Nat.add_sub_cancel]
  have store := store_burst_reads n (n + 2)
  refine ⟨?_, ?_, ?_, fun earlier later p split => not_adds_first kept split⟩
  · rw [place_burst_reads kept, store, size_after_burst]
  · rw [store]
    exact (run_burst n).2.1
  · rw [store, ← Array.getElem?_toList, (run_burst n).1]
    rfl

end Relay

end Steward
