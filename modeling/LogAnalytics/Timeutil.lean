import LogAnalytics.Exn
import LogAnalytics.Lib.Calendar
/-!
# Datetimes

`datetime` of the standard library as the code uses it, and the parts of `timeutil` that
storage and parsing share. A datetime is a clock reading in microseconds between the years 1
and 9999, with an optional UTC offset; readings, differences and the calendar are exact.
-/
open LogAnalytics.Lib.Calendar

namespace LogAnalytics

def hourMicros : Nat := 3600 * 10 ^ 6

def dayMicros : Nat := 24 * hourMicros

/-- The end of the year 9999. -/
def endMicros : Nat := daysBeforeYear 10000 * dayMicros

/-- A date and time of day: microseconds from the start of year 1. -/
@[ext] structure Clock where
  micros : Nat
  lt_end : micros < endMicros
  deriving DecidableEq

namespace Clock

instance : LE Clock := ⟨fun a b => a.micros ≤ b.micros⟩

instance : LT Clock := ⟨fun a b => a.micros < b.micros⟩

instance (a b : Clock) : Decidable (a ≤ b) := inferInstanceAs (Decidable (a.micros ≤ b.micros))

instance (a b : Clock) : Decidable (a < b) := inferInstanceAs (Decidable (a.micros < b.micros))

theorem le_def {a b : Clock} : a ≤ b ↔ a.micros ≤ b.micros := Iff.rfl

theorem lt_def {a b : Clock} : a < b ↔ a.micros < b.micros := Iff.rfl

/-- The day it falls on, as a number. -/
def day (c : Clock) : Nat := c.micros / dayMicros

def timeOfDay (c : Clock) : Nat := c.micros % dayMicros

def hour (c : Clock) : Nat := c.timeOfDay / hourMicros

theorem timeOfDay_lt (c : Clock) : c.timeOfDay < dayMicros := Nat.mod_lt _ (by decide)

theorem day_timeOfDay (c : Clock) : c.day * dayMicros + c.timeOfDay = c.micros := by
  rw [day, timeOfDay, Nat.mul_comm]
  exact Nat.div_add_mod _ _

theorem year_le (c : Clock) : yearOf c.day ≤ 9999 := by
  by_contra h
  have hbefore : daysBeforeYear 10000 ≤ c.day :=
    (daysBeforeYear_mono (Nat.not_le.1 h)).trans (daysBeforeYear_yearOf c.day)
  have hday : c.day < daysBeforeYear 10000 := (Nat.div_lt_iff_lt_mul (by decide)).2 c.lt_end
  exact absurd hday (Nat.not_lt.2 hbefore)

/-- Any other reading is an `OverflowError`. -/
def ofMicros (z : Int) : Except Exn Clock :=
  if h : 0 ≤ z ∧ z < endMicros then .ok ⟨z.toNat, by omega⟩ else .error ⟨.overflowError, "date value out of range"⟩

/-- `self + timedelta` -/
def add (c : Clock) (delta : Int) : Except Exn Clock := ofMicros (c.micros + delta)

theorem ofMicros_ok {z : Int} {c : Clock} : ofMicros z = .ok c ↔ z = c.micros := by
  have hlt := c.lt_end
  unfold ofMicros
  split
  · rw [Except.ok.injEq, Clock.ext_iff]
    dsimp only
    omega
  · rw [iff_false_left (by simp)]
    omega

end Clock

theorem dayNumber_lt_end {y m d tod : Nat} (h : Valid y m d) (hy : y ≤ 9999) (htod : tod < dayMicros) :
    dayNumber y m d * dayMicros + tod < endMicros := by
  have hlt : dayNumber y m d < daysBeforeYear 10000 :=
    Nat.lt_of_lt_of_le (dayNumber_lt_year h) (daysBeforeYear_mono (by omega))
  calc dayNumber y m d * dayMicros + tod < (dayNumber y m d + 1) * dayMicros := by
        rw [Nat.add_mul, Nat.one_mul]; omega
    _ ≤ endMicros := Nat.mul_le_mul_right _ hlt

/-- The reading of a date with a time of day; a field out of range is a `ValueError`. -/
def Clock.ofDate (y m d tod : Nat) (htod : tod < dayMicros) : Except Exn Clock :=
  if hy : 1 ≤ y ∧ y ≤ 9999 then
    if hm : 1 ≤ m ∧ m ≤ 12 then
      if hd : 1 ≤ d ∧ d ≤ daysInMonth y m then
        .ok ⟨dayNumber y m d * dayMicros + tod, dayNumber_lt_end ⟨hy.1, hm.1, hm.2, hd.1, hd.2⟩ hy.2 htod⟩
      else .error ⟨.valueError, "day is out of range for month"⟩
    else .error ⟨.valueError, "month must be in 1..12"⟩
  else .error ⟨.valueError, s!"year {y} is out of range"⟩

theorem Clock.ofDate_ok {y m d tod : Nat} {htod : tod < dayMicros} (h : Valid y m d) (hy : y ≤ 9999) :
    ofDate y m d tod htod = .ok ⟨dayNumber y m d * dayMicros + tod, dayNumber_lt_end h hy htod⟩ := by
  rw [ofDate, dif_pos ⟨h.year_pos, hy⟩, dif_pos ⟨h.month_pos, h.month_le⟩, dif_pos ⟨h.day_pos, h.day_le⟩]

/-- What it accepts is a date. -/
theorem Clock.micros_ofDate {y m d tod : Nat} {htod : tod < dayMicros} {c : Clock} (h : ofDate y m d tod htod = .ok c) :
    Valid y m d ∧ c.micros = dayNumber y m d * dayMicros + tod := by
  unfold ofDate at h
  split at h
  · next hy =>
    split at h
    · next hm =>
      split at h
      · next hd =>
        cases h
        exact ⟨⟨hy.1, hm.1, hm.2, hd.1, hd.2⟩, rfl⟩
      · cases h
    · cases h
  · cases h

/-- `datetime(year, month, day, hour, tzinfo=UTC)` -/
def datetime (y m d h : Nat) : Except Exn Clock :=
  if hh : h ≤ 23 then
    Clock.ofDate y m d (h * hourMicros) (by
      calc h * hourMicros ≤ 23 * hourMicros := Nat.mul_le_mul_right _ hh
        _ < dayMicros := by decide)
  else (Clock.ofDate y m d 0 (by decide)).bind fun _ => .error ⟨.valueError, "hour must be in 0..23"⟩

/-- A `datetime` object: what its clock shows, and its UTC offset in microseconds unless it is
naive. -/
structure Datetime where
  clock : Clock
  offset : Option Int := none
  deriving DecidableEq

/-- The moment it means, a naive one read as UTC. -/
def Datetime.instant (d : Datetime) : Int := d.clock.micros - d.offset.getD 0

namespace Timeutil

/-- `ensure_utc` (`assume="utc"`, as everywhere it is called); `astimezone` overflows where UTC
leaves the calendar. -/
def ensureUtc (value : Datetime) : Except Exn Clock :=
  match value.offset with
  | none => .ok value.clock
  | some offset => Clock.ofMicros (value.clock.micros - offset)

theorem ensureUtc_ok {value : Datetime} {c : Clock} : ensureUtc value = .ok c ↔ value.instant = c.micros := by
  unfold ensureUtc Datetime.instant
  cases value.offset with
  | none =>
    simp only [Except.ok.injEq, Clock.ext_iff, Option.getD_none]
    omega
  | some offset => exact Clock.ofMicros_ok

def minTimestamp : Clock := ⟨dayNumber 1990 1 1 * dayMicros, by decide⟩

def maxTimestamp : Clock := ⟨dayNumber 2100 1 1 * dayMicros, by decide⟩

end Timeutil

end LogAnalytics
