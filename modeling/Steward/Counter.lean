/-!
# Counters with a ceiling

Versions, windows and delays are counted in unsigned words of 64 bits.  A count that would pass the
largest word stays there instead of starting again at zero.
-/

namespace Steward.Counter

/-- The largest count. -/
def ceiling : Nat := 18446744073709551615

def capped (n : Nat) : Nat := min n ceiling

def next (n : Nat) : Nat := capped (n + 1)

def add (m n : Nat) : Nat := capped (m + n)

theorem capped_le (n : Nat) : capped n ≤ ceiling := Nat.min_le_right _ _

theorem capped_of_le {n : Nat} (h : n ≤ ceiling) : capped n = n := Nat.min_eq_left h

theorem next_of_lt {n : Nat} (h : n < ceiling) : next n = n + 1 := capped_of_le h

theorem le_next {n : Nat} (h : n ≤ ceiling) : n ≤ next n := by
  unfold next capped
  omega

end Steward.Counter
