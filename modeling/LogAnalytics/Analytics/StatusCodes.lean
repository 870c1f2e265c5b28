import LogAnalytics.Lib.Counts
import LogAnalytics.Lib.Rounding
import LogAnalytics.Search.Service
import LogAnalytics.Transformation.Enrichment
/-!
# Status codes

`AnalyticsEngine.status_codes` next to `LogEvent.status_class`. The model takes the hundreds of
a code; the query divides and casts, and DuckDB rounds what it casts to the nearest integer, so
the upper half of every hundred is counted one class too high.
-/
open LogAnalytics.Lib

namespace LogAnalytics

/-- `f"{n}xx"` -/
def className (n : Int) : Text := Text.ofString (toString n ++ "xx")

structure CountItem where
  key : Text
  count : Nat
  percentage : ℚ := 0
  deriving DecidableEq

/-- The answer, without its time range. -/
structure StatusCodeAnalytics where
  totalRequests : Nat := 0
  byClass : List (Text × Nat) := []
  byCode : List CountItem := []
  clientErrorRate : ℚ := 0
  serverErrorRate : ℚ := 0
  successRate : ℚ := 0
  deriving DecidableEq

/-- The codes of the rows that have one: `status_code IS NOT NULL`. -/
def statusCodesOf (events : List LogEvent) : List Int := events.filterMap (·.body.statusCode)

/-- `GROUP BY 1 ORDER BY 2 DESC, 1 LIMIT ?` and the shares of the rows that are left. -/
def topCounts (str : Int → Text) (keys : List Int) (limit : Nat) : List CountItem :=
  let rows := ((countBy keys).insertionSort fun a b => b.2 < a.2 ∨ (a.2 = b.2 ∧ a.1 ≤ b.1)).take limit
  let total := (rows.map Prod.snd).sum
  rows.map fun row =>
    { key := str row.1, count := row.2, percentage := if total = 0 then 0 else roundTo 4 ((row.2 : ℚ) / total * 100) }

/-- `CAST(status_code / 100 AS INTEGER)` with the rounding of the cast. -/
def castClass (round : ℚ → ℤ) (code : Int) : Int := round ((code : ℚ) / 100)

/-- The class the query counts a row under. -/
def LogEvent.castClass (round : ℚ → ℤ) (event : LogEvent) : Option Text :=
  event.body.statusCode.map fun code => className (LogAnalytics.castClass round code)

/-- `round(count / total, 6) if total else 0.0` -/
def rate (count total : Nat) : ℚ := if total = 0 then 0 else roundTo 6 ((count : ℚ) / total)

/-- `status_codes` of the rows in scope. -/
def statusCodes (round : ℚ → ℤ) (events : List LogEvent) : StatusCodeAnalytics :=
  let codes := statusCodesOf events
  let rows := Search.fetch 0 (countBy (codes.map (castClass round)))
  let byClass := rows.map fun row => (className row.1, row.2)
  let total := (byClass.map Prod.snd).sum
  let count (name : String) := (byClass.lookup (Text.ofString name)).getD 0
  { totalRequests := total
    byClass := byClass
    byCode := topCounts (fun code => Text.ofString (toString code)) codes 15
    successRate := rate (count "2xx" + count "3xx") total
    clientErrorRate := rate (count "4xx") total
    serverErrorRate := rate (count "5xx") total }

section
variable {round : ℚ → ℤ} {events : List LogEvent}

/-! ## The class of a code -/

end

/-! ## The upper half of a hundred -/

end LogAnalytics
