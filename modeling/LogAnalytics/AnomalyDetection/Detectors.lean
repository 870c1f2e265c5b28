import LogAnalytics.Analytics.Statistics
import LogAnalytics.Analytics.TimeSeries
import LogAnalytics.Lib.Digits
import LogAnalytics.Lib.Rounding
import LogAnalytics.Models.Enums
/-!
# Detectors

`MovingAverageDetector` and `EwmaDetector`, with exact numbers and the square root as an
argument. A finding is kept with the index of its point, so that it can be said where a detector
reports.
-/
open LogAnalytics.Lib

namespace LogAnalytics

/-- A statistically unusual observation; `δ` is the type of `bucket`. -/
structure Anomaly (δ : Type) where
  type : AnomalyType
  detector : String
  severity : Severity := .medium
  bucket : δ
  metric : String
  observed : ℚ
  expected : ℚ
  deviation : ℚ := 0
  score : ℚ := 0
  dimension : Option String := none
  description : String := ""
  deriving DecidableEq

structure TimeSeries where
  metric : String
  points : List TimeSeriesPoint := []

def TimeSeries.values (series : TimeSeries) : List ℚ := series.points.map (·.value)

/-- Shared tuning knobs. -/
structure DetectorConfig where
  threshold : ℚ := 3
  window : Int := 12
  minHistory : Int := 10
  alpha : ℚ := 3 / 10
  minObserved : ℚ := 3

namespace Detectors

inductive Direction where
  | up | down
  deriving DecidableEq

/-- `_UPWARD_TYPES` -/
def upwardTypes : List (String × AnomalyType) := [
  ("errors", .errorSpike),
  ("error_rate", .errorSpike),
  ("server_errors", .serverErrorSurge),
  ("client_errors", .unusualPattern),
  ("requests", .trafficSpike),
  ("latency_avg", .latencySpike),
  ("latency_p95", .latencySpike),
  ("latency_p99", .latencySpike),
  ("latency_max", .latencySpike),
  ("bytes", .trafficSpike),
  ("unique_ips", .unusualPattern),
  ("unique_users", .unusualPattern)]

/-- `_DROP_METRICS` -/
def dropMetrics : List String := ["requests", "bytes", "unique_users"]

/-- `_anomaly_type` -/
def anomalyType (metric : String) : Direction → AnomalyType
  | .down => if metric ∈ dropMetrics then .trafficDrop else .unusualPattern
  | .up => (upwardTypes.lookup metric).getD .unusualPattern

/-- `_severity_from_ratio` -/
def severityFromRatio (observed expected score : ℚ) : Severity :=
  let ratio := if 0 < expected then observed / expected else if 0 < observed then 2 else 1
  if 6 ≤ score ∧ 5 ≤ ratio then .critical
  else if 9 / 2 ≤ score ∧ 3 ≤ ratio then .high
  else if 3 ≤ score ∧ 7 / 4 ≤ ratio then .medium
  else if 5 / 2 ≤ score then .low
  else .info

/-- `f"{x:.2f}"` -/
def fixed2 (x : ℚ) : String :=
  let hundredths := (halfEven (|x| * 100)).toNat
  (if x < 0 then "-" else "") ++ toString (hundredths / 100) ++ "." ++ String.ofList (zeroPad 2 (hundredths % 100))

/-- `_build` -/
def build (detector : String) (series : TimeSeries) (point : TimeSeriesPoint) (observed expected score : ℚ)
    (direction : Direction) (description : String) (dimension : Option String) : Anomaly Clock where
  type := anomalyType series.metric direction
  detector := detector
  severity := severityFromRatio observed expected |score|
  bucket := point.bucket
  metric := series.metric
  observed := roundTo 4 observed
  expected := roundTo 4 expected
  deviation := roundTo 4 (observed - expected)
  score := roundTo 4 |score|
  dimension := dimension
  description := description

/-- A finding and the index of its point. -/
abbrev Finding := Nat × Anomaly Clock

/-! ## The moving average -/

namespace MovingAverage

/-- The score of a point against its baseline, and the direction, if it is reported. -/
def judge (c : DetectorConfig) (metric : String) (observed expected spread : ℚ) : Option (ℚ × Direction) :=
  let settle (score : ℚ) : Option (ℚ × Direction) :=
    if |score| < c.threshold then none
    else
      let direction := if expected < observed then Direction.up else .down
      if direction = .down ∧ metric ∉ dropMetrics then none
      else if direction = .up ∧ observed < c.minObserved then none
      else some (score, direction)
  if spread ≤ 0 then
    if observed = expected then none
    else if expected < observed ∧ observed < c.minObserved then none
    else settle (c.threshold + 1)
  else settle ((observed - expected) / spread)

/-- The body of the loop. -/
def findingAt (c : DetectorConfig) (series : TimeSeries) (dimension : Option String) (averages deviations : List ℚ)
    (index : Nat) : Option Finding := do
  let point ← series.points[index]?
  let expected ← averages[index - 1]?
  let spread ← deviations[index - 1]?
  let observed := point.value
  let (score, direction) ← judge c series.metric observed expected spread
  some (index, build "moving_average" series point observed expected score direction
    (fixed2 observed ++ " deviates from the " ++ toString c.window ++ "-bucket trailing average of " ++ fixed2 expected)
    dimension)

/-- `MovingAverageDetector.detect`, each anomaly with its index. -/
def findings (sqrt : ℚ → ℚ) (c : DetectorConfig) (series : TimeSeries) (dimension : Option String) :
    Except Exn (List Finding) := do
  let values := series.values
  if (values.length : Int) < max c.minHistory c.window then .ok []
  else
    let averages ← Statistics.movingAverage values c.window
    let deviations ← Statistics.rollingStd sqrt values c.window
    .ok ((List.range' c.window.toNat (values.length - c.window.toNat)).filterMap
      (findingAt c series dimension averages deviations))

def detect (sqrt : ℚ → ℚ) (c : DetectorConfig) (series : TimeSeries) (dimension : Option String) :
    Except Exn (List (Anomaly Clock)) :=
  (findings sqrt c series dimension).map (·.map Prod.snd)

end MovingAverage

/-! ## The exponentially weighted moving average -/

namespace Ewma

/-- `math.copysign(x, y)` of a `y` that is not zero. -/
def copysign (x y : ℚ) : ℚ := if y < 0 then -|x| else |x|

/-- The score of a point against its baseline. -/
def scoreOf (c : DetectorConfig) (deviation spread : ℚ) : ℚ :=
  if 0 < spread then deviation / spread
  else if deviation ≠ 0 then copysign (c.threshold + 1) deviation
  else 0

/-- The direction of a point that is reported. -/
def judge (c : DetectorConfig) (metric : String) (observed deviation score : ℚ) : Option Direction :=
  if c.threshold ≤ |score| ∧ (c.minObserved ≤ observed ∨ deviation < 0) then
    let direction := if 0 < deviation then Direction.up else .down
    if direction = .up ∨ metric ∈ dropMetrics then some direction else none
  else none

/-- The loop from the point with this index on. -/
def findingsFrom (sqrt : ℚ → ℚ) (c : DetectorConfig) (series : TimeSeries) (dimension : Option String) :
    Nat → ℚ → ℚ → List TimeSeriesPoint → List Finding
  | _, _, _, [] => []
  | index, level, variance, point :: rest =>
    let observed := point.value
    let deviation := observed - level
    let score := scoreOf c deviation (sqrt variance)
    let found := (judge c series.metric observed deviation score).map fun direction =>
      (index, build "ewma" series point observed level score direction
        (fixed2 observed ++ " deviates from the EWMA baseline of " ++ fixed2 level) dimension)
    found.toList ++ findingsFrom sqrt c series dimension (index + 1) (level + c.alpha * deviation)
      ((1 - c.alpha) * (variance + c.alpha * deviation ^ 2)) rest

/-- `EwmaDetector.detect`, each anomaly with its index. -/
def findings (sqrt : ℚ → ℚ) (c : DetectorConfig) (series : TimeSeries) (dimension : Option String) :
    Except Exn (List Finding) :=
  if (series.values.length : Int) < c.minHistory then .ok []
  else
    match series.points with
    | [] => .error ⟨.other "IndexError", "list index out of range"⟩
    | first :: rest => .ok (findingsFrom sqrt c series dimension 1 first.value 0 rest)

def detect (sqrt : ℚ → ℚ) (c : DetectorConfig) (series : TimeSeries) (dimension : Option String) :
    Except Exn (List (Anomaly Clock)) :=
  (findings sqrt c series dimension).map (·.map Prod.snd)

end Ewma

end Detectors

end LogAnalytics
