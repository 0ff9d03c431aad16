/-!
# Feeds

A feed keeps what was announced, in order, for any number of readers.  Each reader has a place in
the feed and moves on one announcement at a time.  A reader may look back over as many announcements
as the feed's capacity, which is rounded up to a power of two; one that fell further behind is told
how many it lost and goes on with the oldest that is left.
-/

namespace Steward

structure Feed (α : Type) where
  capacity : Nat
  announced : Array α := #[]
  deriving Repr

/-- What a reader finds at its place. -/
inductive Reading (α : Type) where
  | next (item : α)
  | lagged (lost : Nat)
  | empty
  deriving Repr, DecidableEq

namespace Feed

variable {α : Type}

/-- The least power of two, from `power` on, that is at least `n`. -/
def roundUp (n : Nat) : Nat :=
  if n ≤ 1 then 1 else Nat.pow 2 (Nat.log2 (n - 1) + 1)

def ofCapacity (capacity : Nat) : Feed α := { capacity := roundUp capacity }

def size (feed : Feed α) : Nat := feed.announced.size

def announce (feed : Feed α) (item : α) : Feed α :=
  { feed with announced := feed.announced.push item }

/-- The oldest place that can still be read. -/
def oldest (feed : Feed α) : Nat := feed.size - feed.capacity

/-- Reads at a place; with the answer comes the place to read next. -/
def read (feed : Feed α) (place : Nat) : Reading α × Nat :=
  if place < feed.oldest then (.lagged (feed.oldest - place), feed.oldest)
  else
    match feed.announced[place]? with
    | some item => (.next item, place + 1)
    | none => (.empty, place)

/-- Everything there is to read from a place on, with the loss, if any, in front. -/
def readAll (feed : Feed α) (place : Nat) : List (Reading α) × Nat :=
  let lost := feed.oldest - place
  ((if lost = 0 then [] else [.lagged lost]) ++
    ((feed.announced.toList.drop (max place feed.oldest)).map .next),
   max place feed.size)

end Feed

end Steward
