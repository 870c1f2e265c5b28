import Mathlib.Algebra.Order.Field.Basic
import Mathlib.Algebra.Order.Floor.Semiring
import Mathlib.Tactic.Linarith
import Mathlib.Tactic.Ring
/-!
# Linear interpolation

A sequence read between its points along straight lines. Of a monotone sequence the reading is
monotone, and stays between the two points around it.
-/

namespace LogAnalytics.Lib

variable {K : Type*} [Field K]

/-- Between two values, by weight. -/
def lerp (a b w : K) : K := a * (1 - w) + b * w

theorem lerp_zero (a b : K) : lerp a b 0 = a := by simp [lerp]

variable [LinearOrder K] [IsStrictOrderedRing K]

theorem lerp_mono {a b v w : K} (hab : a ≤ b) (hvw : v ≤ w) : lerp a b v ≤ lerp a b w := by
  have hgain : 0 ≤ (b - a) * (w - v) := mul_nonneg (sub_nonneg.2 hab) (sub_nonneg.2 hvw)
  have hdiff : lerp a b w - lerp a b v = (b - a) * (w - v) := by
    unfold lerp
    ring
  linarith

theorem le_lerp {a b w : K} (hab : a ≤ b) (hw : 0 ≤ w) : a ≤ lerp a b w := by
  simpa [lerp] using lerp_mono hab hw

theorem lerp_le {a b w : K} (hab : a ≤ b) (hw : w ≤ 1) : lerp a b w ≤ b := by
  simpa [lerp] using lerp_mono hab hw

variable [FloorSemiring K]

/-- The sequence `x` at `t`. -/
def interpolate (x : ℕ → K) (t : K) : K := lerp (x ⌊t⌋₊) (x (⌊t⌋₊ + 1)) (t - ⌊t⌋₊)

theorem interpolate_natCast (x : ℕ → K) (n : ℕ) : interpolate x n = x n := by
  rw [interpolate, Nat.floor_natCast, sub_self, lerp_zero]

section Monotone
variable {x : ℕ → K} (hx : Monotone x)
include hx

theorem le_interpolate {t : K} (ht : 0 ≤ t) : x ⌊t⌋₊ ≤ interpolate x t :=
  le_lerp (hx (Nat.le_succ _)) (sub_nonneg.2 (Nat.floor_le ht))

theorem interpolate_le (t : K) : interpolate x t ≤ x (⌊t⌋₊ + 1) :=
  lerp_le (hx (Nat.le_succ _)) (by linarith [Nat.lt_floor_add_one t])

/-- Within a segment the line rises; from one to a later one, the point between them is passed. -/
theorem interpolate_mono {s t : K} (hs : 0 ≤ s) (hst : s ≤ t) : interpolate x s ≤ interpolate x t := by
  rcases (Nat.floor_mono hst).eq_or_lt with hsame | hlater
  · unfold interpolate
    rw [hsame]
    exact lerp_mono (hx (Nat.le_succ _)) (sub_le_sub_right hst _)
  · calc interpolate x s ≤ x (⌊s⌋₊ + 1) := interpolate_le hx s
      _ ≤ x ⌊t⌋₊ := hx hlater
      _ ≤ interpolate x t := le_interpolate hx (hs.trans hst)

end Monotone

end LogAnalytics.Lib
