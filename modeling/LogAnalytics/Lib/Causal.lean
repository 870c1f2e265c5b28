import Mathlib.Data.List.Infix
import Mathlib.Data.List.Range
/-!
# Causal functions

A function on finite series that gives a value for each point, and gives the same value whatever
comes after the point.
-/

namespace LogAnalytics.Lib

variable {α β : Type*}

structure Causal (f : List α → List β) : Prop where
  length : ∀ xs, (f xs).length = xs.length
  stable : ∀ xs later, f xs <+: f (xs ++ later)

namespace Causal

/-- The value at a point is settled when the series gets there. -/
theorem getElem? {f : List α → List β} (h : Causal f) {xs : List α} {i : ℕ} (hi : i < xs.length) (later : List α) :
    (f (xs ++ later))[i]? = (f xs)[i]? := by
  obtain ⟨more, hmore⟩ := h.stable xs later
  rw [← hmore, List.getElem?_append_left (by rwa [h.length])]

/-- What is computed of each point from the series up to it. -/
theorem of_prefixes (g : ℕ → List α → β) :
    Causal fun xs : List α => (List.range xs.length).map fun i => g i (xs.take (i + 1)) := by
  refine ⟨fun xs => by rw [List.length_map, List.length_range], fun xs later => ?_⟩
  rw [List.length_append, List.range_add, List.map_append]
  refine ⟨_, congrArg (· ++ _) (List.map_congr_left fun i hi => ?_)⟩
  rw [List.take_append_of_le_length (List.mem_range.1 hi)]

end Causal

end LogAnalytics.Lib
