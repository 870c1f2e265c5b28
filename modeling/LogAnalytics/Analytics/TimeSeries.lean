import LogAnalytics.Lib.Counts
import LogAnalytics.Search.Service
/-!
# Time series

`AnalyticsEngine.timeseries`: the query groups the rows by window, `execute` fetches a bounded
number of groups, and Python goes through the windows of the range and fills what it has no
group for with zeros. A group beyond the bound is filled with zeros as well.
-/
open LogAnalytics.Lib

namespace LogAnalytics

/-- `WINDOWS` and `WINDOW_SQL` -/
inductive Window where
  | m1 | m5 | m15 | h1 | h6 | d1
  deriving DecidableEq

namespace Window

/-- `int(delta.total_seconds())` -/
def seconds : Window → Nat
  | m1 => 60
  | m5 => 300
  | m15 => 900
  | h1 => 3600
  | h6 => 21600
  | d1 => 86400

def micros (w : Window) : Nat := w.seconds * 10 ^ 6

theorem micros_pos (w : Window) : 0 < w.micros := by cases w <;> decide

/-- Days are made of whole windows. -/
theorem micros_dvd (w : Window) : w.micros ∣ dayMicros := by cases w <;> decide

end Window

namespace Timeutil

/-- `floor_to_window` -/
def floorToWindow (w : Window) (moment : Clock) : Clock :=
  let dayStart := moment.day * dayMicros
  let elapsed := moment.timeOfDay / 10 ^ 6
  ⟨if w = .d1 then dayStart else dayStart + (elapsed - elapsed % w.seconds) * 10 ^ 6, by
    have hlt := moment.lt_end
    have hday := moment.day_timeOfDay
    have hsub : (elapsed - elapsed % w.seconds) * 10 ^ 6 ≤ moment.timeOfDay := by
      calc (elapsed - elapsed % w.seconds) * 10 ^ 6 ≤ elapsed * 10 ^ 6 := Nat.mul_le_mul_right _ (Nat.sub_le _ _)
        _ ≤ moment.timeOfDay := Nat.div_mul_le_self _ _
    split <;> omega⟩

/-- The loop of `iter_windows`; past the year 9999 the sum overflows. The fuel counts passes. -/
def iterFrom (w : Window) (stop : Clock) : Nat → Clock → Except Exn (List Clock)
  | 0, _ => .ok []
  | fuel + 1, current =>
    if current ≤ stop then
      (current.add w.micros).bind fun next => (iterFrom w stop fuel next).map (current :: ·)
    else .ok []

/-- How many windows there are from one to another. -/
def windowCount (w : Window) (first last : Clock) : Nat := (last.micros - first.micros) / w.micros + 1

/-- `iter_windows`: one pass for each window, and one that ends the loop. -/
def iterWindows (start stop : Clock) (w : Window) : Except Exn (List Clock) :=
  let current := floorToWindow w start
  let stop := floorToWindow w stop
  iterFrom w stop (windowCount w current stop + 1) current

/-! ## Windows -/

/-- A window starts at a multiple of its length. -/
theorem floorToWindow_micros (w : Window) (c : Clock) : (floorToWindow w c).micros = c.micros / w.micros * w.micros := by
  have hday := c.day_timeOfDay
  obtain ⟨k, hk⟩ := w.micros_dvd
  have hsplit : c.micros / w.micros = c.day * k + c.timeOfDay / w.micros := by
    rw [← hday, hk, ← Nat.mul_assoc, Nat.mul_right_comm, Nat.add_comm, Nat.add_mul_div_right _ _ w.micros_pos, Nat.add_comm]
  rw [hsplit, Nat.add_mul, Nat.mul_assoc, Nat.mul_comm k, ← hk]
  simp only [floorToWindow]
  split
  · next hd =>
    -- less than a day is no window of a day
    have hlong : w.micros = dayMicros := by rw [hd]; decide
    rw [hlong, Nat.div_eq_of_lt c.timeOfDay_lt, Nat.zero_mul, Nat.add_zero]
  · rw [← Nat.div_mul_self_eq_mod_sub_self, Nat.div_div_eq_div_mul, Window.micros, Nat.mul_comm (10 ^ 6), Nat.mul_assoc]

theorem add_overflows {z : Int} (h : (endMicros : Int) ≤ z) : Clock.ofMicros z = .error ⟨.overflowError, "date value out of range"⟩ := by
  rw [Clock.ofMicros, dif_neg (by omega)]

theorem add_window {w : Window} {c : Clock} (h : c.micros + w.micros < endMicros) :
    ∃ next : Clock, next.micros = c.micros + w.micros ∧ c.add w.micros = .ok next :=
  ⟨⟨_, h⟩, rfl, Clock.ofMicros_ok.2 (Nat.cast_add _ _).symm⟩

/-- From a window `n` windows before the last, the loop yields those `n + 1`, unless the sum
overflows after the last. -/
theorem iterFrom_spec (w : Window) {stop : Clock} (n : Nat) : ∀ {current : Clock}, stop.micros = current.micros + n * w.micros →
    (stop.micros + w.micros < endMicros → ∃ windows, iterFrom w stop (n + 2) current = .ok windows ∧
      windows.map Clock.micros = (List.range (n + 1)).map fun i => current.micros + i * w.micros) ∧
    (endMicros ≤ stop.micros + w.micros → ∃ exn, iterFrom w stop (n + 2) current = .error exn) := by
  induction n with
  | zero =>
    intro current hstop
    rw [Nat.zero_mul, Nat.add_zero] at hstop
    rw [iterFrom, if_pos (Clock.le_def.2 hstop.ge)]
    constructor
    · intro hroom
      obtain ⟨next, hnext, hadd⟩ := add_window (w := w) (c := current) (by omega)
      have hpast : ¬next ≤ stop := by
        have hpos := w.micros_pos
        rw [Clock.le_def]
        omega
      refine ⟨[current], ?_, by simp⟩
      rw [hadd, Except.bind, iterFrom, if_neg hpast]
      rfl
    · intro hover
      rw [Clock.add, add_overflows (by omega)]
      exact ⟨_, rfl⟩
  | succ n ih =>
    intro current hstop
    have hlt := stop.lt_end
    rw [Nat.add_mul, Nat.one_mul] at hstop
    obtain ⟨next, hnext, hadd⟩ := add_window (w := w) (c := current) (by omega)
    have hrest := @ih next (by omega)
    rw [iterFrom, if_pos (Clock.le_def.2 (by omega)), hadd, Except.bind]
    constructor
    · intro hroom
      obtain ⟨windows, hok, hmicros⟩ := hrest.1 hroom
      refine ⟨current :: windows, by rw [hok]; rfl, ?_⟩
      rw [List.map_cons, hmicros, List.range_succ_eq_map (n := n + 1), List.map_cons, List.map_map, Nat.zero_mul, Nat.add_zero]
      refine congrArg (List.cons current.micros) (List.map_congr_left fun i _ => ?_)
      rw [Function.comp_apply, Nat.succ_mul, hnext, Nat.add_assoc, Nat.add_comm w.micros]
    · intro hover
      obtain ⟨exn, herror⟩ := hrest.2 hover
      exact ⟨exn, by rw [herror]; rfl⟩

/-- Where the windows of a range start. -/
def windowStarts (w : Window) (range : Clock × Clock) : List Nat :=
  (List.range (windowCount w (floorToWindow w range.1) (floorToWindow w range.2))).map fun i =>
    (floorToWindow w range.1).micros + i * w.micros

theorem nodup_windowStarts (w : Window) (range : Clock × Clock) : (windowStarts w range).Nodup := by
  refine List.Nodup.map (fun i j h => ?_) List.nodup_range
  exact Nat.eq_of_mul_eq_mul_right w.micros_pos (Nat.add_left_cancel h)

/-- The window of a moment in the range is one of them. -/
theorem mem_windowStarts {w : Window} {range : Clock × Clock} {c : Clock} (hlow : range.1 ≤ c) (hhigh : c ≤ range.2) :
    (floorToWindow w c).micros ∈ windowStarts w range := by
  have hdiv : range.1.micros / w.micros ≤ c.micros / w.micros := Nat.div_le_div_right hlow
  have hdiv' : c.micros / w.micros ≤ range.2.micros / w.micros := Nat.div_le_div_right hhigh
  rw [windowStarts, windowCount, floorToWindow_micros, floorToWindow_micros, floorToWindow_micros, ← Nat.sub_mul,
    Nat.mul_div_cancel _ w.micros_pos, List.mem_map]
  refine ⟨c.micros / w.micros - range.1.micros / w.micros, List.mem_range.2 (by omega), ?_⟩
  rw [← Nat.add_mul, Nat.add_sub_cancel' hdiv]

theorem iterWindows_spec (w : Window) {range : Clock × Clock} (h : range.1 ≤ range.2) :
    ((floorToWindow w range.2).micros + w.micros < endMicros → ∃ windows, iterWindows range.1 range.2 w = .ok windows ∧
      windows.map Clock.micros = windowStarts w range) ∧
    (endMicros ≤ (floorToWindow w range.2).micros + w.micros → ∃ exn, iterWindows range.1 range.2 w = .error exn) := by
  refine iterFrom_spec w (((floorToWindow w range.2).micros - (floorToWindow w range.1).micros) / w.micros) ?_
  have hdiv : range.1.micros / w.micros ≤ range.2.micros / w.micros := Nat.div_le_div_right h
  rw [floorToWindow_micros, floorToWindow_micros, ← Nat.sub_mul, Nat.mul_div_cancel _ w.micros_pos, ← Nat.add_mul,
    Nat.add_sub_cancel' hdiv]

end Timeutil

structure TimeSeriesPoint where
  bucket : Clock
  count : Nat := 0
  value : ℚ := 0

/-- The limit `timeseries` gives to `execute`. -/
def maxBuckets : Nat := 100000

section
variable {C : Type}

/-- The rows in the range that the filters select. -/
def matching (rows : List (Search.Row C)) (selects : Search.Row C → Bool) (range : Clock × Clock) : List (Search.Row C) :=
  rows.filter fun row => Search.inRange range row && selects row

/-- `time_bucket(INTERVAL ..., timestamp)`, in microseconds. -/
def bucketOf (w : Window) (row : Search.Row C) : Nat := (Timeutil.floorToWindow w row.timestamp).micros

/-- `timeseries`; `expression` is what the metric computes of the rows of a group. -/
def timeseries (w : Window) (expression : List (Search.Row C) → Option ℚ) (fillGaps : Bool) (rows : List (Search.Row C))
    (selects : Search.Row C → Bool) (start stop : Option Clock) (now : Clock) : Except Exn (List TimeSeriesPoint) := do
  let range ← Search.parseRange start stop now
  let found := matching rows selects range
  let counts := Search.fetch maxBuckets (countBy (found.map (bucketOf w)))
  let value (bucket : Nat) := (expression (found.filter (bucketOf w · = bucket))).getD 0
  let buckets := counts.map fun r => (r.1, value r.1)
  if buckets = [] then .ok []
  else if fillGaps then
    (Timeutil.iterWindows range.1 range.2 w).map fun windows => windows.map fun bucket =>
      { bucket := bucket, value := (buckets.lookup bucket.micros).getD 0, count := (counts.lookup bucket.micros).getD 0 }
  else
    buckets.mapM fun b => (Clock.ofMicros b.1).map fun bucket =>
      { bucket := bucket, value := b.2, count := (counts.lookup b.1).getD 0 }

variable {w : Window} {expression : List (Search.Row C) → Option ℚ} {rows : List (Search.Row C)}
  {selects : Search.Row C → Bool} {start stop : Option Clock} {now : Clock} {range : Clock × Clock}

end

section
variable {n : Nat} (hn : Timeutil.minTimestamp.micros + n * Window.m1.micros < endMicros)

/-- The `i`-th minute from 1990 on. -/
def minute (i : Nat) (hi : i ≤ n) : Clock :=
  ⟨Timeutil.minTimestamp.micros + i * Window.m1.micros,
    Nat.lt_of_le_of_lt (Nat.add_le_add_left (Nat.mul_le_mul_right _ hi) _) hn⟩

end

end LogAnalytics
