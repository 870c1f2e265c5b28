import Mathlib.Data.List.Perm.Basic
import Mathlib.Order.Lattice
/-!
# Half-open windows

A range that is cut at instants falls into windows, each from one instant up to but not including
the next. What lies in the range lies in one of them, whatever has no key in none.
-/

namespace LogAnalytics.Lib

variable {α τ : Type*} [LinearOrder τ] {key : α → Option τ} {a b c : τ}

/-- The key is known and within the window. -/
def within (key : α → Option τ) (a b : τ) (x : α) : Bool := (key x).any fun k => decide (a ≤ k ∧ k < b)

section
variable {ι : Type*}

/-- The windows that start at an instant and are cut at the others. -/
def windows : ι → List ι → List (ι × ι)
  | _, [] => []
  | a, b :: bs => (a, b) :: windows b bs

variable {t : ι → τ} {a : ι} {bs : List ι} {out : ι × ι → List α} {xs : List α}

end

end LogAnalytics.Lib
