import Steward.Change
import Steward.Feed
import Steward.Queue.Floor

/-!
# Watches

A watch reads the changes of a store and adds the keys of records that were created or modified to a
work queue.  Changes that it lost are passed over.  It ends when the feed is closed and read to its
end, or when it finds the queue closed after it read something.
-/

namespace Steward

structure Watch where
  /-- The place in the feed that is read next. -/
  place : Nat := 0
  ended : Bool := false
  deriving DecidableEq, Repr

namespace Watch

variable {ω : Type}

/-- What a watch adds for a change. -/
def keyOf? (change : Change) : Option Key :=
  match change.kind with
  | .added | .modified => some change.key
  | .deleted => none

/-- Lets a watch read once, if there is anything to read. -/
def step? (w : Watch) (feed : Feed Change) (feedClosed : Bool) (floor : Floor ω) :
    Option (Watch × Floor ω) :=
  if w.ended then none
  else
    match feed.read w.place with
    | (.next change, place) =>
        let floor := (keyOf? change).elim floor floor.add
        some ({ place, ended := floor.queue.closed }, floor)
    | (.lagged _, place) => some ({ place, ended := floor.queue.closed }, floor)
    | (.empty, _) => if feedClosed then some ({ w with ended := true }, floor) else none

end Watch

end Steward
