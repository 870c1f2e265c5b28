import Mathlib.Data.List.GetD
import Mathlib.Data.List.Sort
import Mathlib.Data.Rat.Floor
import Mathlib.Order.WithBot
import LogAnalytics.Exn
import LogAnalytics.Lib.Interpolation
/-!
# Percentiles

`percentile` and `iqr_bounds`, with exact numbers. The sorted sample is read as a sequence that
stays at its last value; a percentile is a reading of it.
-/
open LogAnalytics.Lib

namespace LogAnalytics.Statistics

/-- `sorted(values)` -/
def sorted (values : List ℚ) : List ℚ := values.insertionSort (· ≤ ·)

/-- `percentile` -/
def percentile (values : List ℚ) (q : ℚ) : Except Exn ℚ :=
  if values = [] then .ok 0
  else if ¬(0 ≤ q ∧ q ≤ 1) then .error ⟨.valueError, "q must be between 0 and 1"⟩
  else
    let ordered := sorted values
    if ordered.length = 1 then .ok (ordered.getD 0 0)
    else
      let position := q * ((ordered.length : ℚ) - 1)
      let lower := ⌊position⌋₊
      let upper := ⌈position⌉₊
      if lower = upper then .ok (ordered.getD lower 0)
      else
        let weight := position - lower
        .ok (ordered.getD lower 0 * (1 - weight) + ordered.getD upper 0 * weight)

/-- `iqr_bounds`, with `float("-inf")` and `float("inf")` for a sample that is too small. -/
def iqrBounds (values : List ℚ) (multiplier : ℚ) : Except Exn (WithBot ℚ × WithTop ℚ) :=
  if values.length < 4 then .ok (⊥, ⊤)
  else do
    let q1 ← percentile values (1 / 4)
    let q3 ← percentile values (3 / 4)
    let spread := q3 - q1
    return (((q1 - multiplier * spread : ℚ) : WithBot ℚ), ((q3 + multiplier * spread : ℚ) : WithTop ℚ))

/-! ## The sorted sample -/

theorem sorted_perm (values : List ℚ) : (sorted values).Perm values := List.perm_insertionSort _ _

theorem length_sorted (values : List ℚ) : (sorted values).length = values.length := (sorted_perm values).length_eq

theorem sorted_sortedLE (values : List ℚ) : (sorted values).SortedLE := List.sortedLE_insertionSort

theorem sorted_congr {values values' : List ℚ} (h : values.Perm values') : sorted values = sorted values' :=
  ((sorted_perm values).trans (h.trans (sorted_perm values').symm)).eq_of_sortedLE (sorted_sortedLE values)
    (sorted_sortedLE values')

/-- The `i`th smallest value; the largest one from the end of the sample on. -/
def orderStatistic (values : List ℚ) (i : Nat) : ℚ := (sorted values).getD (min i (values.length - 1)) 0

theorem orderStatistic_eq {values : List ℚ} (hne : values ≠ []) (i : Nat) :
    ∃ h : min i (values.length - 1) < (sorted values).length,
      orderStatistic values i = (sorted values)[min i (values.length - 1)] := by
  have hpos := List.length_pos_iff.2 hne
  have h : min i (values.length - 1) < (sorted values).length := by
    rw [length_sorted]
    omega
  exact ⟨h, List.getD_eq_getElem _ _ h⟩

theorem orderStatistic_mono {values : List ℚ} (hne : values ≠ []) : Monotone (orderStatistic values) := by
  intro i j hij
  obtain ⟨hi, hvalue⟩ := orderStatistic_eq hne i
  obtain ⟨hj, hvalue'⟩ := orderStatistic_eq hne j
  rw [hvalue, hvalue']
  exact (sorted_sortedLE values).getElem_le_getElem_of_le (by omega)

theorem orderStatistic_mem {values : List ℚ} (hne : values ≠ []) (i : Nat) : orderStatistic values i ∈ values := by
  obtain ⟨hi, hvalue⟩ := orderStatistic_eq hne i
  rw [hvalue]
  exact (sorted_perm values).subset (List.getElem_mem hi)

/-- Every value has its place. -/
theorem mem_orderStatistic {values : List ℚ} {value : ℚ} (h : value ∈ values) :
    ∃ i, i < values.length ∧ orderStatistic values i = value := by
  obtain ⟨i, hi, hvalue⟩ := List.getElem_of_mem ((sorted_perm values).symm.subset h)
  rw [length_sorted] at hi
  have hmin : min i (values.length - 1) = i := by omega
  exact ⟨i, hi, by rw [orderStatistic, hmin, List.getD_eq_getElem _ _ (by rwa [length_sorted]), hvalue]⟩

theorem min?_eq_first {values : List ℚ} (hne : values ≠ []) : values.min? = some (orderStatistic values 0) := by
  refine List.min?_eq_some_iff.2 ⟨orderStatistic_mem hne 0, fun value hvalue => ?_⟩
  obtain ⟨i, -, rfl⟩ := mem_orderStatistic hvalue
  exact orderStatistic_mono hne (Nat.zero_le i)

theorem max?_eq_last {values : List ℚ} (hne : values ≠ []) :
    values.max? = some (orderStatistic values (values.length - 1)) := by
  refine List.max?_eq_some_iff.2 ⟨orderStatistic_mem hne _, fun value hvalue => ?_⟩
  obtain ⟨i, hi, rfl⟩ := mem_orderStatistic hvalue
  exact orderStatistic_mono hne (by omega)

/-! ## Reading it -/

/-- Where the code looks in the sorted sample. -/
def position (values : List ℚ) (q : ℚ) : ℚ := q * ((values.length : ℚ) - 1)

theorem lastIndex_nonneg {values : List ℚ} (hne : values ≠ []) : (0 : ℚ) ≤ (values.length : ℚ) - 1 := by
  rw [sub_nonneg]
  exact_mod_cast List.length_pos_iff.2 hne

theorem position_mono {values : List ℚ} (hne : values ≠ []) {q q' : ℚ} (h : q ≤ q') :
    position values q ≤ position values q' :=
  mul_le_mul_of_nonneg_right h (lastIndex_nonneg hne)

/-- The branches of the code are one reading: at a point the line has the point's value. -/
theorem percentile_eq {values : List ℚ} (hne : values ≠ []) {q : ℚ} (h0 : 0 ≤ q) (h1 : q ≤ 1) :
    percentile values q = .ok (interpolate (orderStatistic values) (position values q)) := by
  have hlast : ((values.length - 1 : Nat) : ℚ) = (values.length : ℚ) - 1 := by
    rw [Nat.cast_sub (List.length_pos_iff.2 hne), Nat.cast_one]
  have hpos : 0 ≤ position values q := mul_nonneg h0 (lastIndex_nonneg hne)
  have hle : position values q ≤ (values.length - 1 : Nat) := by
    rw [hlast]
    exact mul_le_of_le_one_left (lastIndex_nonneg hne) h1
  have hceil : ⌈position values q⌉₊ ≤ values.length - 1 := Nat.ceil_le.2 hle
  have hfloor : ⌊position values q⌋₊ ≤ ⌈position values q⌉₊ := Nat.floor_le_ceil _
  have hplace : ∀ {i}, i ≤ values.length - 1 → (sorted values).getD i 0 = orderStatistic values i := by
    intro i hi
    rw [orderStatistic, Nat.min_eq_left hi]
  have hposition : q * ((values.length : ℚ) - 1) = position values q := rfl
  unfold percentile
  rw [if_neg hne, if_neg (not_not.2 ⟨h0, h1⟩)]
  simp only [length_sorted, hposition]
  split
  · next hone =>
    have hzero : position values q = (0 : Nat) := by
      rw [position, hone]
      simp
    rw [hzero, interpolate_natCast, hplace (Nat.zero_le _)]
  split
  · next hsame =>
    have hpoint : position values q = (⌊position values q⌋₊ : Nat) :=
      le_antisymm (by rw [hsame]; exact Nat.le_ceil _) (Nat.floor_le hpos)
    rw [hplace (hfloor.trans hceil)]
    exact congrArg Except.ok ((interpolate_natCast _ _).symm.trans (congrArg _ hpoint.symm))
  · next hbetween =>
    have hnext : ⌈position values q⌉₊ = ⌊position values q⌋₊ + 1 :=
      le_antisymm (Nat.ceil_le_floor_add_one _) (by omega)
    rw [hplace (hfloor.trans hceil), hplace hceil, hnext]
    rfl

theorem percentile_congr {values values' : List ℚ} (h : values.Perm values') (q : ℚ) :
    percentile values q = percentile values' q := by
  have hempty : values = [] ↔ values' = [] := by
    rw [← List.length_eq_zero_iff, ← List.length_eq_zero_iff, h.length_eq]
  unfold percentile
  rw [sorted_congr h]
  simp only [hempty]

theorem percentile_mono {values : List ℚ} (hne : values ≠ []) (q q' : ℚ) (h0 : 0 ≤ q) (hq : q ≤ q') :
    interpolate (orderStatistic values) (position values q) ≤ interpolate (orderStatistic values) (position values q') :=
  interpolate_mono (orderStatistic_mono hne) (mul_nonneg h0 (lastIndex_nonneg hne)) (position_mono hne hq)

/-- The first and the last percentile. -/
theorem interpolate_ends {values : List ℚ} (hne : values ≠ []) :
    interpolate (orderStatistic values) (position values 0) = orderStatistic values 0 ∧
      interpolate (orderStatistic values) (position values 1) = orderStatistic values (values.length - 1) := by
  have hfirst : position values 0 = (0 : Nat) := by simp [position]
  have hlast : position values 1 = (values.length - 1 : Nat) := by
    rw [position, one_mul, Nat.cast_sub (List.length_pos_iff.2 hne), Nat.cast_one]
  rw [hfirst, hlast]
  exact ⟨interpolate_natCast _ _, interpolate_natCast _ _⟩

theorem iqrBounds_eq {values : List ℚ} (hlen : 4 ≤ values.length) {q1 q3 : ℚ} (h1 : percentile values (1 / 4) = .ok q1)
    (h3 : percentile values (3 / 4) = .ok q3) (multiplier : ℚ) :
    iqrBounds values multiplier =
      .ok (((q1 - multiplier * (q3 - q1) : ℚ) : WithBot ℚ), ((q3 + multiplier * (q3 - q1) : ℚ) : WithTop ℚ)) := by
  rw [iqrBounds, if_neg (by omega), h1, h3]
  rfl

/-- A percentile depends on the values and not on their order, lies between the smallest and the
largest, and grows with `q`; so the fences are in order. -/
theorem percentile_order_statistic {values : List ℚ} (hne : values ≠ []) :
    (∀ values', values'.Perm values → ∀ q, percentile values' q = percentile values q) ∧
    (∀ q, 0 ≤ q → q ≤ 1 → ∃ smallest x largest, values.min? = some smallest ∧ percentile values q = .ok x ∧
      values.max? = some largest ∧ smallest ≤ x ∧ x ≤ largest) ∧
    (∀ q q', 0 ≤ q → q ≤ q' → q' ≤ 1 → ∃ x x', percentile values q = .ok x ∧ percentile values q' = .ok x' ∧ x ≤ x') ∧
    (4 ≤ values.length → ∀ multiplier, 0 ≤ multiplier → ∃ lower q1 median q3 upper : ℚ,
      iqrBounds values multiplier = .ok ((lower : WithBot ℚ), (upper : WithTop ℚ)) ∧
      percentile values (1 / 4) = .ok q1 ∧ percentile values (1 / 2) = .ok median ∧ percentile values (3 / 4) = .ok q3 ∧
      lower ≤ q1 ∧ q1 ≤ median ∧ median ≤ q3 ∧ q3 ≤ upper) := by
  refine ⟨fun values' h q => percentile_congr h q, fun q h0 h1 => ?_, fun q q' h0 hq h1 => ?_, fun hlen multiplier hm => ?_⟩
  · obtain ⟨hfirst, hlast⟩ := interpolate_ends hne
    exact ⟨_, _, _, min?_eq_first hne, percentile_eq hne h0 h1, max?_eq_last hne,
      hfirst ▸ percentile_mono hne 0 q le_rfl h0, hlast ▸ percentile_mono hne q 1 h0 h1⟩
  · exact ⟨_, _, percentile_eq hne h0 (hq.trans h1), percentile_eq hne (h0.trans hq) h1, percentile_mono hne q q' h0 hq⟩
  · have h1 := percentile_eq hne (q := 1 / 4) (by norm_num) (by norm_num)
    have h2 := percentile_eq hne (q := 1 / 2) (by norm_num) (by norm_num)
    have h3 := percentile_eq hne (q := 3 / 4) (by norm_num) (by norm_num)
    have hlower := percentile_mono hne (1 / 4) (1 / 2) (by norm_num) (by norm_num)
    have hupper := percentile_mono hne (1 / 2) (3 / 4) (by norm_num) (by norm_num)
    have hspread := mul_nonneg hm (sub_nonneg.2 (hlower.trans hupper))
    exact ⟨_, _, _, _, _, iqrBounds_eq hlen h1 h3 multiplier, h1, h2, h3, sub_le_self _ hspread, hlower, hupper,
      le_add_of_nonneg_right hspread⟩

theorem percentile_order_statistic_four :
    percentile [10, 3, 2, 1] (1 / 4) = percentile [3, 1, 2, 10] (1 / 4) ∧
    ∃ lower q1 median q3 upper : ℚ,
      iqrBounds [3, 1, 2, 10] (3 / 2) = .ok ((lower : WithBot ℚ), (upper : WithTop ℚ)) ∧
      percentile [3, 1, 2, 10] (1 / 4) = .ok q1 ∧ percentile [3, 1, 2, 10] (1 / 2) = .ok median ∧
      percentile [3, 1, 2, 10] (3 / 4) = .ok q3 ∧ lower ≤ q1 ∧ q1 ≤ median ∧ median ≤ q3 ∧ q3 ≤ upper :=
  have h := @percentile_order_statistic [3, 1, 2, 10] (by decide)
  ⟨h.1 _ (by decide) _, h.2.2.2 (by decide) _ (by norm_num)⟩

example : percentile [3, 1, 2, 10] (1 / 4) = .ok (7 / 4) := by decide +kernel

end LogAnalytics.Statistics
