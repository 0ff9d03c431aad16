import Steward.Intervals

/-!
# Settings of a loop

How many workers a loop has, and how long it waits after a key failed: the base delay after the
first failure in a row, twice the delay before after every further one, and never more than the
longest delay.
-/

namespace Steward

structure LoopSettings where
  workers : Nat := 2
  /-- The delay after a first failure. -/
  backoffBase : Nat := 100
  backoffMax : Nat := 60000
  deriving DecidableEq, Repr

namespace LoopSettings

/-- The delay after the `attempt`-th failure in a row.  No delay grows any more once the base was
doubled as often as a word has bits. -/
def backoff (settings : LoopSettings) (attempt : Nat) : Nat :=
  min (Counter.capped (Counter.capped settings.backoffBase * Nat.pow 2 (min (attempt - 1) 64)))
    (Counter.capped settings.backoffMax)

def fieldNames : List String := ["workers", "error_backoff_base", "error_backoff_max"]

def read? {δ : Type} [Source δ] (d : δ) : Option LoopSettings := do
  let field ← Source.fields? fieldNames d
  let default : LoopSettings := {}
  let workers ← Source.orElse default.workers Source.nat? (field "workers")
  let backoffBase ← Source.orElse default.backoffBase Source.nat? (field "error_backoff_base")
  let backoffMax ← Source.orElse default.backoffMax Source.nat? (field "error_backoff_max")
  return { workers, backoffBase, backoffMax }

/-- The settings as they are written: a delay that is too long for a word is cut to the longest. -/
def written (settings : LoopSettings) : List (String × Nat) :=
  fieldNames.zip <|
    [settings.workers, settings.backoffBase, settings.backoffMax].map Counter.capped

end LoopSettings

end Steward
