import Mathlib.Algebra.Order.Ring.Rat
import Mathlib.Algebra.Order.BigOperators.Group.List
import Mathlib.Data.List.GetD
import Mathlib.Tactic.Positivity
import Mathlib.Tactic.Ring
import LogAnalytics.Exn
import LogAnalytics.Lib.Causal
/-!
# Trailing statistics

`moving_average` and `rolling_std`, with exact numbers and the square root as an argument. Both
look back only, and the running sum of the first is the sum of what it looks back at.
-/
open LogAnalytics.Lib

namespace LogAnalytics.Statistics

/-- The loop of `moving_average` from `index` on. -/
def movingAverageFrom (values : List ℚ) (window : Nat) : Nat → ℚ → List ℚ → List ℚ
  | _, _, [] => []
  | index, running, value :: rest =>
    let running := running + value
    let running := if window ≤ index then running - values.getD (index - window) 0 else running
    running / (min (index + 1) window : Nat) :: movingAverageFrom values window (index + 1) running rest

/-- `moving_average` -/
def movingAverage (values : List ℚ) (window : Int) : Except Exn (List ℚ) :=
  if window < 1 then .error ⟨.valueError, "window must be >= 1"⟩
  else .ok (movingAverageFrom values window.toNat 0 0 values)

def mean (chunk : List ℚ) : ℚ := chunk.sum / chunk.length

/-- The last `window` values up to `index`, or as many as there are. -/
def trailing (window : Nat) (values : List ℚ) (index : Nat) : List ℚ :=
  (values.take (index + 1)).drop (index + 1 - window)

/-- The standard deviation of one chunk. -/
def sampleStd (sqrt : ℚ → ℚ) (chunk : List ℚ) : ℚ :=
  if chunk.length < 2 then 0
  else sqrt ((chunk.map fun v => (v - mean chunk) ^ 2).sum / ((chunk.length : ℚ) - 1))

/-- `rolling_std` -/
def rollingStd (sqrt : ℚ → ℚ) (values : List ℚ) (window : Int) : Except Exn (List ℚ) :=
  if window < 2 then .error ⟨.valueError, "window must be >= 2"⟩
  else .ok ((List.range values.length).map fun index =>
    sampleStd sqrt ((values.take (index + 1)).drop (index + 1 - window.toNat)))

/-! ## The running sum -/

theorem length_trailing {window : Nat} {values : List ℚ} {index : Nat} (hindex : index < values.length) :
    (trailing window values index).length = min (index + 1) window := by
  rw [trailing, List.length_drop, List.length_take]
  omega

/-- One value enters the window; one leaves it once the window is full. -/
theorem sum_slide {window : Nat} (hwindow : 0 < window) (done : List ℚ) (value : ℚ) :
    ((done ++ [value]).drop (done.length + 1 - window)).sum =
      (done.drop (done.length - window)).sum + value -
        if window ≤ done.length then done.getD (done.length - window) 0 else 0 := by
  rw [List.drop_append_of_le_length (by omega), List.sum_append, List.sum_singleton]
  split
  · next hfull =>
    have hold : done.length - window < done.length := by omega
    have hnext : done.length + 1 - window = done.length - window + 1 := by omega
    rw [hnext, List.drop_eq_getElem_cons hold, List.sum_cons, List.getD_eq_getElem _ _ hold]
    ring
  · next hfilling =>
    have hall : done.length + 1 - window = 0 := by omega
    have hall' : done.length - window = 0 := by omega
    rw [hall, hall', sub_zero]

/-- The running sum is that of the window before `index`, all through the loop. -/
theorem movingAverageFrom_eq {window : Nat} (hwindow : 0 < window) (rest : List ℚ) :
    ∀ (done : List ℚ) (running : ℚ), running = (done.drop (done.length - window)).sum →
      movingAverageFrom (done ++ rest) window done.length running rest =
        (List.range' done.length rest.length).map fun index => mean (trailing window (done ++ rest) index) := by
  induction rest with
  | nil => intro _ _ _; rfl
  | cons value rest ih =>
    intro done running hrunning
    have hsplit : done ++ value :: rest = (done ++ [value]) ++ rest := by simp
    have hlen : (done ++ [value]).length = done.length + 1 := by simp
    have htrailing : trailing window (done ++ value :: rest) done.length =
        (done ++ [value]).drop (done.length + 1 - window) := by
      rw [trailing, hsplit, ← hlen, List.take_left]
    have hnext : (if window ≤ done.length then
          running + value - (done ++ value :: rest).getD (done.length - window) 0 else running + value) =
        ((done ++ [value]).drop (done.length + 1 - window)).sum := by
      rw [sum_slide hwindow, ← hrunning]
      split
      · next hfull => rw [List.getD_append _ _ _ _ (by omega)]
      · rw [sub_zero]
    have hdivisor : ((trailing window (done ++ value :: rest) done.length).length : ℚ) =
        (min (done.length + 1) window : Nat) := by
      rw [length_trailing (by simp)]
    rw [movingAverageFrom, List.length_cons, List.range'_succ, List.map_cons, hnext]
    refine congrArg₂ List.cons ?_ ?_
    · rw [mean, hdivisor, htrailing]
    · have hih := ih (done ++ [value]) _ (congrArg (fun n => ((done ++ [value]).drop (n - window)).sum) hlen.symm)
      rwa [hlen, ← hsplit] at hih

/-- Every entry is the mean of the values it looks back at. -/
theorem movingAverage_exact (values : List ℚ) {window : Int} (hwindow : 1 ≤ window) :
    ∃ out, movingAverage values window = .ok out ∧ out.length = values.length ∧
      ∀ i, i < values.length →
        (trailing window.toNat values i).length = min (i + 1) window.toNat ∧
        out[i]? = some ((trailing window.toNat values i).sum / (min (i + 1) window.toNat : Nat)) := by
  have hfrom := @movingAverageFrom_eq window.toNat (by omega) values [] 0 (by simp)
  simp only [List.nil_append, List.length_nil, ← List.range_eq_range'] at hfrom
  refine ⟨_, by rw [movingAverage, if_neg (by omega), hfrom], by simp, fun i hi => ⟨length_trailing hi, ?_⟩⟩
  rw [List.getElem?_map, List.getElem?_range hi, Option.map_some, mean, length_trailing hi]

theorem movingAverage_exact_filling :
    ∃ out, movingAverage [1, 2, 6] 2 = .ok out ∧ out.length = 3 ∧
      ∀ i, i < 3 → (trailing 2 [1, 2, 6] i).length = min (i + 1) 2 ∧
        out[i]? = some ((trailing 2 [1, 2, 6] i).sum / (min (i + 1) 2 : Nat)) :=
  @movingAverage_exact [1, 2, 6] 2 (by decide)

/-! ## Looking back only -/

/-- The square root is taken of numbers that are not negative. -/
theorem sampleStd_congr {sqrt sqrt' : ℚ → ℚ} (hsqrt : ∀ x, 0 ≤ x → sqrt x = sqrt' x) (chunk : List ℚ) :
    sampleStd sqrt chunk = sampleStd sqrt' chunk := by
  unfold sampleStd
  split
  · rfl
  · next hlen =>
    have hdegrees : (0 : ℚ) ≤ (chunk.length : ℚ) - 1 := by
      rw [sub_nonneg]
      exact_mod_cast (by omega : 1 ≤ chunk.length)
    refine hsqrt _ (div_nonneg (List.sum_nonneg fun square hsquare => ?_) hdegrees)
    obtain ⟨v, -, rfl⟩ := List.mem_map.1 hsquare
    exact sq_nonneg (v - mean chunk)

theorem length_movingAverageFrom (values : List ℚ) (window : Nat) (rest : List ℚ) :
    ∀ index running, (movingAverageFrom values window index running rest).length = rest.length := by
  induction rest with
  | nil => intro _ _; rfl
  | cons value rest ih =>
    intro index running
    exact congrArg (· + 1) (ih _ _)

/-- What the loop takes off the running sum it has added before. -/
theorem movingAverageFrom_append {window : Nat} (hwindow : 0 < window) (values later : List ℚ) (rest : List ℚ) :
    ∀ index running, index + rest.length = values.length →
      movingAverageFrom values window index running rest <+:
        movingAverageFrom (values ++ later) window index running (rest ++ later) := by
  induction rest with
  | nil => intro _ _ _; exact List.nil_prefix
  | cons value rest ih =>
    intro index running hlen
    rw [List.length_cons] at hlen
    have hold : (values ++ later).getD (index - window) 0 = values.getD (index - window) 0 :=
      List.getD_append _ _ _ _ (by omega)
    rw [List.cons_append, movingAverageFrom, movingAverageFrom, hold, List.cons_prefix_cons]
    exact ⟨rfl, ih _ _ (by omega)⟩

theorem causal_movingAverage {window : Nat} (hwindow : 0 < window) :
    Causal fun values => movingAverageFrom values window 0 0 values :=
  ⟨fun values => length_movingAverageFrom values window values 0 0,
    fun values later => movingAverageFrom_append hwindow values later values 0 0 (Nat.zero_add _)⟩

theorem causal_rollingStd (sqrt : ℚ → ℚ) (window : Nat) :
    Causal fun values : List ℚ => (List.range values.length).map fun index =>
      sampleStd sqrt ((values.take (index + 1)).drop (index + 1 - window)) :=
  Causal.of_prefixes fun index upTo => sampleStd sqrt (upTo.drop (index + 1 - window))

end LogAnalytics.Statistics
