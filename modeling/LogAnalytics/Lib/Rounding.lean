import Mathlib.Algebra.Order.Floor.Ring
import Mathlib.Data.Int.ConditionallyCompleteOrder
import Mathlib.Data.Rat.Floor
import Mathlib.Tactic.FieldSimp
import Mathlib.Tactic.Linarith
/-!
# Rounding to the nearest

A rounding to the nearest integer is settled but for the halves between two of them; `halfEven`
takes the even one. `roundTo` keeps so many decimals.
-/

namespace LogAnalytics.Lib

/-- It is never off by more than a half. -/
def Nearest (round : ℚ → ℤ) : Prop := ∀ q, |(round q : ℚ) - q| ≤ 1 / 2

/-- Closer than a half there is one choice. -/
theorem Nearest.eq {round : ℚ → ℤ} (h : Nearest round) {q : ℚ} {n : ℤ} (hn : |q - n| < 1 / 2) : round q = n := by
  have hclose : |((round q - n : ℤ) : ℚ)| < 1 := by
    push_cast
    calc |(round q : ℚ) - n| = |((round q : ℚ) - q) + (q - n)| := by ring_nf
      _ ≤ |(round q : ℚ) - q| + |q - n| := abs_add_le _ _
      _ < 1 / 2 + 1 / 2 := add_lt_add_of_le_of_lt (h q) hn
      _ = 1 := by norm_num
  have hzero : |round q - n| < 1 := by exact_mod_cast hclose
  have := Int.abs_lt_one_iff.1 hzero
  omega

theorem Nearest.int {round : ℚ → ℤ} (h : Nearest round) (n : ℤ) : round n = n := h.eq (by simp)

/-- A number rounded above a greater one would be off by more than a half. -/
theorem Nearest.monotone {round : ℚ → ℤ} (h : Nearest round) : Monotone round := by
  intro a b hab
  by_contra hlt
  have hstep : (round b : ℚ) + 1 ≤ round a := by exact_mod_cast not_le.1 hlt
  have ha := (abs_le.1 (h a)).2
  have hb := (abs_le.1 (h b)).1
  have heq : a = b := by linarith
  exact hlt (heq ▸ le_rfl)

/-- The nearest integer, of two the even one. -/
def halfEven (q : ℚ) : ℤ :=
  let f := ⌊q⌋
  if q - f < 1 / 2 then f else if 1 / 2 < q - f then f + 1 else if f % 2 = 0 then f else f + 1

theorem nearest_halfEven : Nearest halfEven := by
  intro q
  have hlow := Int.floor_le q
  have hhigh := Int.lt_floor_add_one q
  unfold halfEven
  dsimp only
  rw [abs_le]
  split
  · constructor <;> linarith
  · split
    · push_cast
      constructor <;> linarith
    · split
      · constructor <;> linarith
      · push_cast
        constructor <;> linarith

def roundTo (places : ℕ) (q : ℚ) : ℚ := halfEven (q * 10 ^ places) / 10 ^ places

theorem roundTo_mono (places : ℕ) : Monotone (roundTo places) := by
  intro a b hab
  have hpow : (0 : ℚ) < 10 ^ places := by positivity
  refine div_le_div_of_nonneg_right ?_ hpow.le
  exact_mod_cast nearest_halfEven.monotone (mul_le_mul_of_nonneg_right hab hpow.le)

end LogAnalytics.Lib
