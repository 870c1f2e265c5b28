import LogAnalytics.AnomalyDetection.Detectors
/-!
# Alerts do not change

What a trailing detector reports of a point is settled when the series gets there: the findings
of a longer series begin with those of the shorter one, and the others are about later points.
-/
open LogAnalytics.Lib

namespace LogAnalytics

/-- The series with later points. -/
def TimeSeries.extend (series : TimeSeries) (later : List TimeSeriesPoint) : TimeSeries :=
  { series with points := series.points ++ later }

theorem TimeSeries.values_extend (series : TimeSeries) (later : List TimeSeriesPoint) :
    (series.extend later).values = series.values ++ later.map (·.value) := List.map_append

theorem TimeSeries.length_values (series : TimeSeries) : series.values.length = series.points.length := List.length_map _

namespace Detectors

/-- What a call reports; one that raises reports nothing. -/
def reports : Except Exn (List Finding) → List Finding
  | .ok found => found
  | .error _ => []

/-- The findings about the first `n` points. -/
def below (n : Nat) (found : List Finding) : List Finding := found.filter (·.1 < n)

/-- The longer call reports what the shorter one does, and beyond it points from the `n`-th on. -/
structure Extends (n : Nat) (short long : List Finding) : Prop where
  early : ∀ f ∈ short, f.1 < n
  split : ∃ more, long = short ++ more ∧ ∀ f ∈ more, n ≤ f.1

theorem Extends.below_eq {n : Nat} {short long : List Finding} (h : Extends n short long) : below n long = short := by
  obtain ⟨more, rfl, hmore⟩ := h.split
  rw [below, List.filter_append, List.filter_eq_self.2 fun f hf => decide_eq_true (h.early f hf),
    List.filter_eq_nil_iff.2 fun f hf => by simpa using hmore f hf, List.append_nil]

/-! ## The moving average -/

namespace MovingAverage

variable {sqrt : ℚ → ℚ} {c : DetectorConfig} {series : TimeSeries} {dimension : Option String}

theorem findingAt_index {averages deviations : List ℚ} {index : Nat} {f : Finding}
    (h : findingAt c series dimension averages deviations index = some f) : f.1 = index := by
  simp only [findingAt, Option.bind_eq_bind, Option.bind_eq_some_iff, Option.some.injEq] at h
  obtain ⟨_, -, _, -, _, -, _, -, rfl⟩ := h
  rfl

/-- The body of the loop looks at the point, and at the baseline one before. -/
theorem findingAt_extend {later : List TimeSeriesPoint} {averages averages' deviations deviations' : List ℚ} {index : Nat}
    (hindex : index < series.points.length) (haverages : averages'[index - 1]? = averages[index - 1]?)
    (hdeviations : deviations'[index - 1]? = deviations[index - 1]?) :
    findingAt c (series.extend later) dimension averages' deviations' index =
      findingAt c series dimension averages deviations index := by
  have hpoint : (series.extend later).points[index]? = series.points[index]? := List.getElem?_append_left hindex
  rw [findingAt, findingAt, hpoint, haverages, hdeviations]
  rfl

theorem findings_eq (hwindow : 2 ≤ c.window) (hlong : max c.minHistory c.window ≤ series.points.length) :
    findings sqrt c series dimension =
      .ok ((List.range' c.window.toNat (series.points.length - c.window.toNat)).filterMap
        (findingAt c series dimension (Statistics.movingAverageFrom series.values c.window.toNat 0 0 series.values)
          ((List.range series.values.length).map fun index => Statistics.sampleStd sqrt
            ((series.values.take (index + 1)).drop (index + 1 - c.window.toNat))))) := by
  have hlen : ¬((series.points.length : Int) < max c.minHistory c.window) := by omega
  have haverage : ¬c.window < 1 := by omega
  have hdeviation : ¬c.window < 2 := by omega
  simp only [findings, series.length_values, if_neg hlen, Statistics.movingAverage, if_neg haverage, Statistics.rollingStd,
    if_neg hdeviation, Bind.bind, Except.bind]

/-- Before the window is full nothing is reported. -/
theorem window_le_of_mem (hwindow : 2 ≤ c.window) {f : Finding} (h : f ∈ reports (findings sqrt c series dimension)) :
    c.window ≤ f.1 := by
  by_cases hlong : max c.minHistory c.window ≤ series.points.length
  · rw [findings_eq hwindow hlong] at h
    obtain ⟨index, hindex, hfound⟩ := List.mem_filterMap.1 h
    rw [findingAt_index hfound]
    have := (List.mem_range'_1.1 hindex).1
    omega
  · have hshort : (series.values.length : Int) < max c.minHistory c.window := by
      rw [series.length_values]
      omega
    simp only [findings, if_pos hshort, reports] at h
    cases h

theorem findings_extend (hwindow : 2 ≤ c.window) (hlong : c.minHistory ≤ series.points.length)
    (later : List TimeSeriesPoint) :
    Extends series.points.length (reports (findings sqrt c series dimension))
      (reports (findings sqrt c (series.extend later) dimension)) := by
  by_cases hfull : c.window ≤ series.points.length
  · have hlen : (series.extend later).points.length = series.points.length + later.length := List.length_append
    rw [findings_eq hwindow (max_le hlong hfull), findings_eq hwindow (max_le (by omega) (by omega)), reports, reports]
    constructor
    · intro f hf
      obtain ⟨index, hindex, hfound⟩ := List.mem_filterMap.1 hf
      rw [findingAt_index hfound]
      have := List.mem_range'_1.1 hindex
      omega
    · have hsplit : (series.extend later).points.length - c.window.toNat =
          (series.points.length - c.window.toNat) + later.length := by omega
      have hstart : c.window.toNat + (series.points.length - c.window.toNat) = series.points.length := by omega
      rw [hsplit, ← List.range'_append_1, List.filterMap_append, hstart]
      refine ⟨_, congrArg (· ++ _) (List.filterMap_congr fun index hindex => ?_), fun f hf => ?_⟩
      · -- the baseline of an early point is made of early points
        have hbounds := List.mem_range'_1.1 hindex
        have hearly : index - 1 < series.values.length := by
          rw [series.length_values]
          omega
        rw [series.values_extend]
        exact findingAt_extend (by omega) ((Statistics.causal_movingAverage (by omega)).getElem? hearly _)
          ((Statistics.causal_rollingStd sqrt _).getElem? hearly _)
      · obtain ⟨index, hindex, hfound⟩ := List.mem_filterMap.1 hf
        rw [findingAt_index hfound]
        exact (List.mem_range'_1.1 hindex).1
  · have hnone : reports (findings sqrt c series dimension) = [] := by
      have hshort : (series.values.length : Int) < max c.minHistory c.window := by
        rw [series.length_values]
        omega
      simp only [findings, if_pos hshort, reports]
    rw [hnone]
    refine ⟨fun f hf => (List.not_mem_nil hf).elim, _, (List.nil_append _).symm, fun f hf => ?_⟩
    have := window_le_of_mem hwindow hf
    omega

end MovingAverage

/-! ## The exponentially weighted moving average -/

namespace Ewma

variable {sqrt : ℚ → ℚ} {c : DetectorConfig} {series : TimeSeries} {dimension : Option String}

theorem findingsFrom_index (points : List TimeSeriesPoint) : ∀ {index : Nat} {level variance : ℚ},
    ∀ f ∈ findingsFrom sqrt c series dimension index level variance points, index ≤ f.1 ∧ f.1 < index + points.length := by
  induction points with
  | nil => intro _ _ _ f hf; cases hf
  | cons point rest ih =>
    intro index level variance f hf
    rw [List.length_cons]
    rcases List.mem_append.1 hf with hf | hf
    · obtain ⟨direction, -, rfl⟩ := Option.map_eq_some_iff.1 (Option.mem_toList.1 hf)
      dsimp only
      omega
    · have := ih f hf
      omega

/-- The loop goes on from the level and the variance the earlier points leave. -/
theorem findingsFrom_append (points later : List TimeSeriesPoint) : ∀ (index : Nat) (level variance : ℚ),
    ∃ level' variance', findingsFrom sqrt c series dimension index level variance (points ++ later) =
      findingsFrom sqrt c series dimension index level variance points ++
        findingsFrom sqrt c series dimension (index + points.length) level' variance' later := by
  induction points with
  | nil => exact fun index level variance => ⟨level, variance, rfl⟩
  | cons point rest ih =>
    intro index level variance
    obtain ⟨level', variance', h⟩ := ih (index + 1) (level + c.alpha * (point.value - level))
      ((1 - c.alpha) * (variance + c.alpha * (point.value - level) ^ 2))
    refine ⟨level', variance', ?_⟩
    rw [List.cons_append, findingsFrom, h, findingsFrom, List.append_assoc, List.length_cons, Nat.add_right_comm,
      Nat.add_assoc]

/-- The loop takes the metric from the series and nothing else. -/
theorem findingsFrom_extend (later points : List TimeSeriesPoint) : ∀ (index : Nat) (level variance : ℚ),
    findingsFrom sqrt c (series.extend later) dimension index level variance points =
      findingsFrom sqrt c series dimension index level variance points := by
  induction points with
  | nil => intro _ _ _; rfl
  | cons point rest ih =>
    intro index level variance
    rw [findingsFrom, findingsFrom, ih]
    rfl

theorem findings_extend (hlong : c.minHistory ≤ series.points.length) (later : List TimeSeriesPoint) :
    Extends series.points.length (reports (findings sqrt c series dimension))
      (reports (findings sqrt c (series.extend later) dimension)) := by
  have hlen : (series.extend later).points.length = series.points.length + later.length := List.length_append
  have hnot : ∀ s : TimeSeries, series.points.length ≤ s.points.length → ¬((s.values.length : Int) < c.minHistory) := by
    intro s hs
    rw [s.length_values]
    omega
  rw [findings, if_neg (hnot series le_rfl), findings, if_neg (hnot _ (by omega))]
  have hpoints : (series.extend later).points = series.points ++ later := rfl
  rw [hpoints]
  cases hs : series.points with
  | nil => exact ⟨fun f hf => (List.not_mem_nil hf).elim, _, (List.nil_append _).symm, fun f _ => Nat.zero_le _⟩
  | cons first rest =>
    obtain ⟨level', variance', happend⟩ := @findingsFrom_append sqrt c series dimension rest later 1
      first.value 0
    rw [List.cons_append]
    simp only [reports, findingsFrom_extend, happend]
    refine ⟨fun f hf => ?_, _, rfl, fun f hf => ?_⟩
    · rw [List.length_cons, Nat.add_comm]
      exact (findingsFrom_index rest f hf).2
    · rw [List.length_cons, Nat.add_comm]
      exact (findingsFrom_index later f hf).1

/-- With a smoothing factor between 0 and 1 no square root of a negative number is taken. -/
theorem findingsFrom_congr {sqrt' : ℚ → ℚ} (hsqrt : ∀ x, 0 ≤ x → sqrt x = sqrt' x) (hlow : 0 ≤ c.alpha) (hhigh : c.alpha ≤ 1)
    (points : List TimeSeriesPoint) : ∀ (index : Nat) (level : ℚ) {variance : ℚ}, 0 ≤ variance →
    findingsFrom sqrt c series dimension index level variance points =
      findingsFrom sqrt' c series dimension index level variance points := by
  induction points with
  | nil => intro _ _ _ _; rfl
  | cons point rest ih =>
    intro index level variance hvariance
    have hrest : 0 ≤ 1 - c.alpha := sub_nonneg.2 hhigh
    rw [findingsFrom, findingsFrom, hsqrt variance hvariance, ih _ _ (by positivity)]

end Ewma

/-- Neither detector looks ahead: of the points of a series long enough, a longer one gives the
same findings. -/
theorem never_look_ahead (sqrt : ℚ → ℚ) {c : DetectorConfig} (hwindow : 2 ≤ c.window) {series : TimeSeries}
    (hlong : c.minHistory ≤ series.points.length) (later : List TimeSeriesPoint) (dimension : Option String) :
    below series.points.length (reports (MovingAverage.findings sqrt c (series.extend later) dimension)) =
        reports (MovingAverage.findings sqrt c series dimension) ∧
      below series.points.length (reports (Ewma.findings sqrt c (series.extend later) dimension)) =
        reports (Ewma.findings sqrt c series dimension) :=
  ⟨(MovingAverage.findings_extend hwindow hlong later).below_eq, (Ewma.findings_extend hlong later).below_eq⟩

def pointOf (value : ℚ) : TimeSeriesPoint := { bucket := Timeutil.minTimestamp, value := value }

/-- Requests double after two quiet buckets. -/
def doubled : TimeSeries := ⟨"requests", [10, 10, 20].map pointOf⟩

theorem never_look_ahead_doubled :
    below 3 (reports (MovingAverage.findings id { window := 2, minHistory := 3 } (doubled.extend [pointOf 10]) none)) =
        reports (MovingAverage.findings id { window := 2, minHistory := 3 } doubled none) ∧
      below 3 (reports (Ewma.findings id { window := 2, minHistory := 3 } (doubled.extend [pointOf 10]) none)) =
        reports (Ewma.findings id { window := 2, minHistory := 3 } doubled none) :=
  @never_look_ahead id { window := 2, minHistory := 3 } (by decide) doubled (by decide) [pointOf 10] none

end Detectors

end LogAnalytics
