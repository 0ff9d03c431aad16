import Mathlib.Algebra.Group.Nat.Defs
import Mathlib.Order.Monotone.Basic
import Steward.Backend.Behaviour
import Steward.Loop.Settings

/-!
# Delays and windows below the ceiling

Delays and windows are counted in words, and a count that would pass the largest word stays there.
A delay loses nothing by that: the longest delay is cut to a word as well, so whatever a step of the
doubling leaves out above the ceiling would be cut off at the end, and the delay is the exact one.
The far end of a window is not part of it, so a window that ends beyond the ceiling loses the
largest count that a word can hold.
-/

namespace Steward

namespace Counter

theorem capped_of_ge {n : Nat} (h : ceiling ≤ n) : capped n = ceiling := Nat.min_eq_right h

/-- In a product that is cut to a word it does not show whether a factor was cut before. -/
theorem capped_mul_capped (m n : Nat) : capped (m * capped n) = capped (m * n) := by
  obtain small | large := Nat.le_total n ceiling
  · rw [capped_of_le small]
  obtain rfl | pos := Nat.eq_zero_or_pos m
  · simp
  · have reached : ceiling ≤ m * ceiling := Nat.le_mul_of_pos_left ceiling pos
    rw [capped_of_ge large, capped_of_ge reached,
      capped_of_ge (reached.trans (Nat.mul_le_mul_left m large))]

/-- One is doubled past the ceiling in as many steps as a word has bits. -/
theorem capped_two_pow_min (doublings : Nat) :
    capped (2 ^ min doublings 64) = capped (2 ^ doublings) := by
  obtain few | many := Nat.le_total doublings 64
  · rw [Nat.min_eq_left few]
  · have passed : ceiling ≤ 2 ^ 64 := by decide
    have further : 2 ^ 64 ≤ 2 ^ doublings := Nat.pow_le_pow_right (by decide) many
    rw [Nat.min_eq_right many, capped_of_ge passed, capped_of_ge (passed.trans further)]

/-- Against a word, what was cut to a word counts in full. -/
theorem min_capped (m n : Nat) : min (capped m) (capped n) = min m (capped n) := by
  rw [capped, Nat.min_assoc, Nat.min_eq_right (capped_le n)]

end Counter

/-! ## Delays -/

namespace LoopSettings

open Counter (ceiling capped)

/-- The delay, counted in steps that each stay below the ceiling. -/
theorem backoff_eq_capped (settings : LoopSettings) (attempt : Nat) :
    settings.backoff attempt =
      min (capped (capped settings.backoffBase * capped (2 ^ (attempt - 1))))
        (capped settings.backoffMax) := by
  rw [← Counter.capped_two_pow_min, Counter.capped_mul_capped]
  rfl

/-- The delay, counted without a ceiling. -/
theorem backoff_eq (settings : LoopSettings) (attempt : Nat) :
    settings.backoff attempt =
      min (capped settings.backoffBase * 2 ^ (attempt - 1)) (capped settings.backoffMax) := by
  calc
    settings.backoff attempt
        = min (capped (capped settings.backoffBase * capped (2 ^ (attempt - 1))))
            (capped settings.backoffMax) := backoff_eq_capped settings attempt
    _ = min (capped (capped settings.backoffBase * 2 ^ (attempt - 1)))
          (capped settings.backoffMax) := by rw [Counter.capped_mul_capped]
    _ = min (capped settings.backoffBase * 2 ^ (attempt - 1)) (capped settings.backoffMax) :=
      Counter.min_capped _ _

theorem backoff_mono (settings : LoopSettings) : Monotone settings.backoff := by
  intro m n le
  rw [backoff_eq, backoff_eq]
  have doubled : 2 ^ (m - 1) ≤ 2 ^ (n - 1) :=
    Nat.pow_le_pow_right (by decide) (Nat.sub_le_sub_right le 1)
  have grown := Nat.mul_le_mul_left (capped settings.backoffBase) doubled
  omega

theorem backoff_le (settings : LoopSettings) (attempt : Nat) :
    settings.backoff attempt ≤ capped settings.backoffMax := by
  rw [backoff_eq]
  exact Nat.min_le_right _ _

def nanosPerMilli : Nat := 1000000

/-- Settings whose delays are given to the nanosecond; only the whole milliseconds count. -/
def ofNanos (workers base longest : Nat) : LoopSettings where
  workers
  backoffBase := base / nanosPerMilli
  backoffMax := longest / nanosPerMilli

/-- For any base delay and any longest delay, and after any number of failures: the delay is the
exact product, cut to the longest delay, and the same comes out when every step is cut to a word.
So it never decreases, never exceeds the longest delay and fits into a word. -/
theorem backoff_exact (workers base longest : Nat) :
    (∀ attempt,
      (ofNanos workers base longest).backoff attempt =
        min (capped (base / nanosPerMilli) * 2 ^ (max attempt 1 - 1))
          (capped (longest / nanosPerMilli)) ∧
      (ofNanos workers base longest).backoff attempt =
        min (capped (capped (base / nanosPerMilli) * capped (2 ^ (attempt - 1))))
          (capped (longest / nanosPerMilli))) ∧
    Monotone (ofNanos workers base longest).backoff ∧
    ∀ attempt,
      (ofNanos workers base longest).backoff attempt * nanosPerMilli ≤ longest ∧
      (ofNanos workers base longest).backoff attempt ≤ ceiling := by
  refine ⟨fun attempt => ⟨?_, backoff_eq_capped _ attempt⟩, backoff_mono _, fun attempt => ?_⟩
  · have first : max attempt 1 - 1 = attempt - 1 := by omega
    rw [first]
    exact backoff_eq _ attempt
  · have le := backoff_le (ofNanos workers base longest) attempt
    refine ⟨?_, le.trans (Counter.capped_le _)⟩
    calc
      (ofNanos workers base longest).backoff attempt * nanosPerMilli
          ≤ longest / nanosPerMilli * nanosPerMilli :=
        Nat.mul_le_mul_right _ (le.trans (Nat.min_le_left _ _))
      _ ≤ longest := Nat.div_mul_le_self _ _

/-- Three milliseconds, doubled until a word is full. -/
example : ({ backoffBase := 3, backoffMax := ceiling } : LoopSettings).backoff 63 =
      3 * 2 ^ 62 ∧
    ({ backoffBase := 3, backoffMax := ceiling } : LoopSettings).backoff 64 = ceiling := by
  decide

end LoopSettings

/-! ## Windows -/

namespace Backend.Behaviour

open Counter (ceiling)

variable {b : Behaviour} {prior : Nat}

/-- The window holds the call that follows `prior` others, when its end is counted without a
ceiling. -/
def InWindow (b : Behaviour) (prior : Nat) : Prop :=
  b.start ≤ prior ∧ (b.width = 0 ∨ prior < b.start + b.width)

/-- The call that follows as many others as a word can count is covered by open windows only. -/
theorem covers_iff (counted : prior ≤ ceiling) :
    b.covers prior = true ↔ b.InWindow prior ∧ (prior = ceiling → b.width = 0) := by
  have below : prior < Counter.add b.start b.width ↔
      prior < b.start + b.width ∧ prior < ceiling := Nat.lt_min
  simp only [covers, InWindow, Bool.and_eq_true, Bool.or_eq_true, decide_eq_true_eq, beq_iff_eq,
    below]
  omega

theorem inWindow_iff (limited : 0 < b.width) :
    b.InWindow prior ↔ ∃ n < b.width, prior = b.start + n := by
  constructor
  · rintro ⟨opened, endless | within⟩
    · omega
    · exact ⟨prior - b.start, by omega, by omega⟩
  · rintro ⟨n, lt, rfl⟩
    exact ⟨Nat.le_add_right _ _, .inr (Nat.add_lt_add_left lt _)⟩

/-- A window covers what it holds, but for the call that follows as many others as a word can
count: a window of limited width does not cover that one.  So it covers all that it holds exactly
when it is open or its end can be counted in a word. -/
theorem covers_all_but_last (b : Behaviour) (opens : b.start ≤ ceiling) :
    (∀ prior ≤ ceiling,
      b.covers prior = true ↔ b.InWindow prior ∧ (prior = ceiling → b.width = 0)) ∧
    (0 < b.width → ∀ prior ≤ ceiling,
      b.covers prior = true ↔ (∃ n < b.width, prior = b.start + n) ∧ prior ≠ ceiling) ∧
    ((∀ prior ≤ ceiling, b.covers prior = true ↔ b.InWindow prior) ↔
      b.width = 0 ∨ b.start + b.width ≤ ceiling) := by
  refine ⟨fun prior counted => covers_iff counted, fun limited prior counted => ?_, ?_, ?_⟩
  · rw [covers_iff counted, inWindow_iff limited]
    exact and_congr_right fun _ =>
      ⟨fun ends last => Nat.ne_of_gt limited (ends last), fun inside last => absurd last inside⟩
  · intro agrees
    by_contra beyond
    rw [not_or, Nat.not_le] at beyond
    obtain ⟨limited, beyond⟩ := beyond
    have held : b.InWindow ceiling := ⟨opens, .inr beyond⟩
    have covered := (covers_iff le_rfl).mp ((agrees ceiling le_rfl).mpr held)
    exact limited (covered.2 rfl)
  · intro ends prior counted
    rw [covers_iff counted]
    refine and_iff_left_of_imp fun held last => ?_
    obtain ⟨_, endless | within⟩ := held
    · exact endless
    · omega

/-- A window that opens at the last but one count of a word. -/
def lateWindow : Behaviour := { reaction := .createFail, start := ceiling - 1, width := 5 }

theorem covers_all_but_last_of_lateWindow : lateWindow.start ≤ ceiling ∧ 0 < lateWindow.width ∧
    lateWindow.covers (ceiling - 1) = true ∧ ¬ lateWindow.covers ceiling = true ∧
    ¬ ∀ prior ≤ ceiling, lateWindow.covers prior = true ↔ lateWindow.InWindow prior := by
  have opens : lateWindow.start ≤ ceiling := by decide
  obtain ⟨window, listed, agrees⟩ := covers_all_but_last lateWindow opens
  refine ⟨opens, by decide, ?_, ?_, ?_⟩
  · exact (listed (by decide) _ (by decide)).mpr ⟨⟨0, by decide, rfl⟩, by decide⟩
  · rw [window ceiling le_rfl]
    exact fun covered => absurd (covered.2 rfl) (by decide)
  · rw [agrees]
    decide

/-- A window of one call that opens at the largest count covers no call. -/
theorem last_call_uncovered : ¬ ∀ (b : Behaviour) (prior : Nat),
    b.start ≤ ceiling → b.width ≤ ceiling → prior ≤ ceiling →
    (b.covers prior = true ↔ b.InWindow prior) := by
  intro agrees
  let b : Behaviour := { reaction := .createFail, start := ceiling, width := 1 }
  have held : b.InWindow ceiling := ⟨le_rfl, .inr (Nat.lt_succ_self ceiling)⟩
  have covered := (agrees b ceiling le_rfl (by decide) le_rfl).mpr held
  exact absurd covered (by decide)

end Backend.Behaviour

end Steward
