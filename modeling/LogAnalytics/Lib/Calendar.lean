import Mathlib.Data.Nat.Find
import Mathlib.Order.Monotone.Basic
import Mathlib.Tactic.Tauto
import Mathlib.Tactic.IntervalCases
/-!
# The Gregorian calendar

Days are numbered from 0, the first of January of year 1. `dayNumber` numbers a date,
`yearOf`, `monthOf` and `dayOf` read it back; each is the inverse of the other on the dates
that exist.
-/

namespace LogAnalytics.Lib.Calendar

def isLeap (y : Nat) : Bool := y % 4 = 0 && (y % 100 ≠ 0 || y % 400 = 0)

/-- The days before the first of January of year `y`. -/
def daysBeforeYear (y : Nat) : Nat := (y - 1) * 365 + (y - 1) / 4 - (y - 1) / 100 + (y - 1) / 400

/-- The days before the first of month `m` in a common year; month 13 is the year after. -/
def commonDaysBefore : Nat → Nat
  | 0 | 1 => 0
  | 2 => 31
  | 3 => 59
  | 4 => 90
  | 5 => 120
  | 6 => 151
  | 7 => 181
  | 8 => 212
  | 9 => 243
  | 10 => 273
  | 11 => 304
  | 12 => 334
  | _ => 365

def daysBeforeMonth (y m : Nat) : Nat := commonDaysBefore m + if 2 < m ∧ isLeap y then 1 else 0

def daysInMonth (y m : Nat) : Nat := daysBeforeMonth y (m + 1) - daysBeforeMonth y m

/-- The dates that exist. -/
structure Valid (y m d : Nat) : Prop where
  year_pos : 1 ≤ y
  month_pos : 1 ≤ m
  month_le : m ≤ 12
  day_pos : 1 ≤ d
  day_le : d ≤ daysInMonth y m

instance (y m d : Nat) : Decidable (Valid y m d) :=
  decidable_of_iff (1 ≤ y ∧ 1 ≤ m ∧ m ≤ 12 ∧ 1 ≤ d ∧ d ≤ daysInMonth y m)
    ⟨fun ⟨hy, hm, hm', hd, hd'⟩ => ⟨hy, hm, hm', hd, hd'⟩,
      fun h => ⟨h.year_pos, h.month_pos, h.month_le, h.day_pos, h.day_le⟩⟩

def dayNumber (y m d : Nat) : Nat := daysBeforeYear y + daysBeforeMonth y m + (d - 1)

/-- The year of a day: 400 years have 146097 days, so the estimate is off by one at most. -/
def yearOf (n : Nat) : Nat :=
  let y := n * 400 / 146097 + 1
  if n < daysBeforeYear y then y - 1 else if n < daysBeforeYear (y + 1) then y else y + 1

def dayOfYear (n : Nat) : Nat := n - daysBeforeYear (yearOf n)

def monthOf (n : Nat) : Nat := Nat.findGreatest (fun m => daysBeforeMonth (yearOf n) m ≤ dayOfYear n) 12

def dayOf (n : Nat) : Nat := dayOfYear n - daysBeforeMonth (yearOf n) (monthOf n) + 1

/-! ## Years -/

theorem daysBeforeMonth_end (y : Nat) : daysBeforeMonth y 13 = if isLeap y then 366 else 365 := by
  cases h : isLeap y <;> simp [daysBeforeMonth, commonDaysBefore, h]

theorem daysBeforeYear_succ {y : Nat} (h : 1 ≤ y) : daysBeforeYear (y + 1) = daysBeforeYear y + daysBeforeMonth y 13 := by
  obtain ⟨k, rfl⟩ : ∃ k, y = k + 1 := ⟨y - 1, by omega⟩
  have hfourth : (k + 1) / 4 = k / 4 + if 4 ∣ k + 1 then 1 else 0 := Nat.succ_div
  have hcentury : (k + 1) / 100 = k / 100 + if 100 ∣ k + 1 then 1 else 0 := Nat.succ_div
  have hcycle : (k + 1) / 400 = k / 400 + if 400 ∣ k + 1 then 1 else 0 := Nat.succ_div
  have hle : k / 100 ≤ k / 4 := by omega
  have hleap : isLeap (k + 1) = true ↔ 4 ∣ k + 1 ∧ (¬100 ∣ k + 1 ∨ 400 ∣ k + 1) := by
    simp [isLeap, Nat.dvd_iff_mod_eq_zero]
  have h100 : 100 ∣ k + 1 → 4 ∣ k + 1 := Nat.dvd_trans (by decide)
  have h400 : 400 ∣ k + 1 → 100 ∣ k + 1 := Nat.dvd_trans (by decide)
  simp only [daysBeforeYear, daysBeforeMonth_end, hleap, Nat.add_sub_cancel, hfourth, hcentury, hcycle]
  by_cases h1 : 4 ∣ k + 1
  · by_cases h2 : 100 ∣ k + 1
    · by_cases h3 : 400 ∣ k + 1
      · rw [if_pos h1, if_pos h2, if_pos h3, if_pos ⟨h1, .inr h3⟩]; omega
      · rw [if_pos h1, if_pos h2, if_neg h3, if_neg (by tauto)]; omega
    · rw [if_pos h1, if_neg h2, if_neg (mt h400 h2), if_pos ⟨h1, .inl h2⟩]; omega
  · rw [if_neg h1, if_neg (mt h100 h1), if_neg (mt h100 h1 ∘ h400), if_neg (fun h => h1 h.1)]; omega

theorem daysBeforeYear_mono : Monotone daysBeforeYear := by
  refine monotone_nat_of_le_succ fun y => ?_
  rcases Nat.eq_zero_or_pos y with rfl | hy
  · decide
  · rw [daysBeforeYear_succ hy]
    exact Nat.le_add_right _ _

theorem yearOf_pos (n : Nat) : 1 ≤ yearOf n := by
  unfold yearOf daysBeforeYear
  dsimp only
  split <;> [skip; split] <;> omega

theorem daysBeforeYear_yearOf (n : Nat) : daysBeforeYear (yearOf n) ≤ n := by
  unfold yearOf
  dsimp only
  split
  · unfold daysBeforeYear; omega
  · split <;> omega

theorem lt_daysBeforeYear_yearOf (n : Nat) : n < daysBeforeYear (yearOf n + 1) := by
  unfold yearOf
  dsimp only
  split
  · have h : n * 400 / 146097 + 1 - 1 + 1 = n * 400 / 146097 + 1 := by omega
    rwa [h]
  · split
    · assumption
    · unfold daysBeforeYear; omega

/-- A day lies in one year only. -/
theorem yearOf_unique {n y : Nat} (h1 : daysBeforeYear y ≤ n) (h2 : n < daysBeforeYear (y + 1)) : yearOf n = y := by
  have hlo := daysBeforeYear_yearOf n
  have hhi := lt_daysBeforeYear_yearOf n
  have hmono : ∀ {a b : Nat}, a < b → daysBeforeYear (a + 1) ≤ daysBeforeYear b := fun h => daysBeforeYear_mono h
  rcases Nat.lt_trichotomy (yearOf n) y with h | h | h
  · have := hmono h
    omega
  · exact h
  · have := hmono h
    omega

/-! ## Months -/

theorem commonDaysBefore_mono : Monotone commonDaysBefore := by
  refine monotone_nat_of_le_succ fun m => ?_
  rcases Nat.lt_or_ge m 13 with h | h
  · revert h; revert m; decide
  · obtain ⟨k, rfl⟩ := Nat.exists_eq_add_of_le' h
    exact le_rfl

theorem daysBeforeMonth_mono (y : Nat) : Monotone (daysBeforeMonth y) := by
  intro a b h
  have hcommon := commonDaysBefore_mono h
  unfold daysBeforeMonth
  split
  · rw [if_pos ⟨by omega, by tauto⟩]; omega
  · split <;> omega

theorem daysBeforeMonth_one (y : Nat) : daysBeforeMonth y 1 = 0 := by
  simp [daysBeforeMonth, commonDaysBefore]

theorem monthOf_pos (n : Nat) : 1 ≤ monthOf n :=
  Nat.le_findGreatest (by decide) (by rw [daysBeforeMonth_one]; exact Nat.zero_le _)

theorem monthOf_le (n : Nat) : monthOf n ≤ 12 := Nat.findGreatest_le 12

theorem daysBeforeMonth_monthOf (n : Nat) : daysBeforeMonth (yearOf n) (monthOf n) ≤ dayOfYear n := by
  have h1 : daysBeforeMonth (yearOf n) 1 ≤ dayOfYear n := by rw [daysBeforeMonth_one]; exact Nat.zero_le _
  exact Nat.findGreatest_spec (P := fun m => daysBeforeMonth (yearOf n) m ≤ dayOfYear n) (by decide) h1

theorem lt_daysBeforeMonth_monthOf (n : Nat) : dayOfYear n < daysBeforeMonth (yearOf n) (monthOf n + 1) := by
  rcases Nat.lt_or_ge (monthOf n) 12 with h | h
  · exact Nat.not_le.1 fun hle => absurd (Nat.le_findGreatest h hle) (Nat.not_succ_le_self _)
  · have h12 : monthOf n = 12 := Nat.le_antisymm (monthOf_le n) h
    have hlt := lt_daysBeforeYear_yearOf n
    rw [daysBeforeYear_succ (yearOf_pos n)] at hlt
    have hlo := daysBeforeYear_yearOf n
    rw [h12, dayOfYear, Nat.sub_lt_iff_lt_add hlo, Nat.add_comm]
    exact hlt

/-- A day of a year lies in one month only. -/
theorem monthOf_unique {n m : Nat} (h1 : daysBeforeMonth (yearOf n) m ≤ dayOfYear n)
    (h2 : dayOfYear n < daysBeforeMonth (yearOf n) (m + 1)) : monthOf n = m := by
  have hlo := daysBeforeMonth_monthOf n
  have hhi := lt_daysBeforeMonth_monthOf n
  have hmono : ∀ {a b : Nat}, a < b → daysBeforeMonth (yearOf n) (a + 1) ≤ daysBeforeMonth (yearOf n) b := fun h =>
    daysBeforeMonth_mono _ h
  rcases Nat.lt_trichotomy (monthOf n) m with h | h | h
  · have := hmono h
    omega
  · exact h
  · have := hmono h
    omega

/-! ## The two directions -/

theorem valid_fields (n : Nat) : Valid (yearOf n) (monthOf n) (dayOf n) where
  year_pos := yearOf_pos n
  month_pos := monthOf_pos n
  month_le := monthOf_le n
  day_pos := Nat.le_add_left _ _
  day_le := by
    have h1 := daysBeforeMonth_monthOf n
    have h2 := lt_daysBeforeMonth_monthOf n
    unfold dayOf daysInMonth
    omega

theorem dayNumber_fields (n : Nat) : dayNumber (yearOf n) (monthOf n) (dayOf n) = n := by
  have h1 := daysBeforeYear_yearOf n
  have h2 := daysBeforeMonth_monthOf n
  unfold dayOfYear at h2
  unfold dayNumber dayOf dayOfYear
  omega

/-- Days are ordered as their dates. -/
theorem lt_iff_fields (a b : Nat) : a < b ↔ yearOf a < yearOf b ∨ yearOf a = yearOf b ∧
    (monthOf a < monthOf b ∨ monthOf a = monthOf b ∧ dayOf a < dayOf b) := by
  have hlex (a b : Nat) (h : yearOf a < yearOf b ∨ yearOf a = yearOf b ∧
      (monthOf a < monthOf b ∨ monthOf a = monthOf b ∧ dayOf a < dayOf b)) : a < b := by
    rcases h with hyear | ⟨hyear, hrest⟩
    · have hlt := lt_daysBeforeYear_yearOf a
      have hle := daysBeforeYear_yearOf b
      have hmono : daysBeforeYear (yearOf a + 1) ≤ daysBeforeYear (yearOf b) := daysBeforeYear_mono hyear
      omega
    · have ha := daysBeforeYear_yearOf a
      have hb := daysBeforeYear_yearOf b
      have hinyear : dayOfYear a < dayOfYear b := by
        rcases hrest with hmonth | ⟨hmonth, hday⟩
        · have hlt := lt_daysBeforeMonth_monthOf a
          have hle := daysBeforeMonth_monthOf b
          have hmono : daysBeforeMonth (yearOf a) (monthOf a + 1) ≤ daysBeforeMonth (yearOf a) (monthOf b) :=
            daysBeforeMonth_mono _ hmonth
          rw [← hyear] at hle
          omega
        · have ha := daysBeforeMonth_monthOf a
          have hb := daysBeforeMonth_monthOf b
          rw [← hyear, ← hmonth] at hb
          unfold dayOf at hday
          rw [← hyear, ← hmonth] at hday
          omega
      unfold dayOfYear at hinyear
      rw [← hyear] at hinyear hb
      omega
  refine ⟨fun hlt => ?_, hlex a b⟩
  by_contra hnot
  have hother : (yearOf b < yearOf a ∨ yearOf b = yearOf a ∧
      (monthOf b < monthOf a ∨ monthOf b = monthOf a ∧ dayOf b < dayOf a)) ∨
      yearOf a = yearOf b ∧ monthOf a = monthOf b ∧ dayOf a = dayOf b := by omega
  rcases hother with h | ⟨hyear, hmonth, hday⟩
  · exact absurd (hlex b a h) (by omega)
  · have heq := dayNumber_fields a
    rw [hyear, hmonth, hday, dayNumber_fields] at heq
    omega

/-- A date lies before the next month, so before the next year. -/
theorem dayNumber_lt_month {y m d : Nat} (h : Valid y m d) :
    daysBeforeMonth y m + (d - 1) < daysBeforeMonth y (m + 1) := by
  have h1 := h.day_pos
  have h2 := h.day_le
  unfold daysInMonth at h2
  omega

theorem dayNumber_lt_year {y m d : Nat} (h : Valid y m d) : dayNumber y m d < daysBeforeYear (y + 1) := by
  have hmonth := dayNumber_lt_month h
  have hend : daysBeforeMonth y (m + 1) ≤ daysBeforeMonth y 13 := daysBeforeMonth_mono y (by have := h.month_le; omega)
  rw [daysBeforeYear_succ h.year_pos, dayNumber]
  omega

theorem yearOf_dayNumber {y m d : Nat} (h : Valid y m d) : yearOf (dayNumber y m d) = y :=
  yearOf_unique (Nat.le_add_right _ _ |>.trans (Nat.le_add_right _ _)) (dayNumber_lt_year h)

theorem dayOfYear_dayNumber {y m d : Nat} (h : Valid y m d) :
    dayOfYear (dayNumber y m d) = daysBeforeMonth y m + (d - 1) := by
  rw [dayOfYear, yearOf_dayNumber h, dayNumber]
  omega

theorem monthOf_dayNumber {y m d : Nat} (h : Valid y m d) : monthOf (dayNumber y m d) = m := by
  apply monthOf_unique <;> rw [yearOf_dayNumber h, dayOfYear_dayNumber h]
  · exact Nat.le_add_right _ _
  · exact dayNumber_lt_month h

theorem dayOf_dayNumber {y m d : Nat} (h : Valid y m d) : dayOf (dayNumber y m d) = d := by
  have := h.day_pos
  rw [dayOf, yearOf_dayNumber h, monthOf_dayNumber h, dayOfYear_dayNumber h]
  omega

/-! ## The length of a month, and the next one -/

theorem daysInMonth_le {y m : Nat} (hpos : 1 ≤ m) (hle : m ≤ 12) : daysInMonth y m ≤ 31 := by
  unfold daysInMonth daysBeforeMonth
  cases isLeap y <;> interval_cases m <;> decide

theorem le_daysInMonth {y m : Nat} (hpos : 1 ≤ m) (hle : m ≤ 12) : 28 ≤ daysInMonth y m := by
  unfold daysInMonth daysBeforeMonth
  cases isLeap y <;> interval_cases m <;> decide

theorem dayOf_le (n : Nat) : dayOf n ≤ 31 :=
  (valid_fields n).day_le.trans (daysInMonth_le (monthOf_pos n) (monthOf_le n))

/-- The first of a month is not after the first of a later day's month. -/
theorem le_monthStart {n k : Nat} (hfirst : dayOf k = 1) (h : k ≤ n) : k ≤ dayNumber (yearOf n) (monthOf n) 1 := by
  by_contra hlt
  rw [Nat.not_le, dayNumber, Nat.sub_self, Nat.add_zero] at hlt
  have hyear : yearOf k = yearOf n := yearOf_unique (by omega) (h.trans_lt (lt_daysBeforeYear_yearOf n))
  have hmonth : monthOf k = monthOf n := by
    have hlast := lt_daysBeforeMonth_monthOf n
    unfold dayOfYear at hlast
    apply monthOf_unique <;> rw [dayOfYear, hyear] <;> omega
  rw [dayOf, dayOfYear, hyear, hmonth] at hfirst
  omega

/-- The first day after a month. -/
theorem dayOf_nextMonth {y m : Nat} (hy : 1 ≤ y) (hpos : 1 ≤ m) (hle : m ≤ 12) :
    dayOf (daysBeforeYear y + daysBeforeMonth y (m + 1)) = 1 := by
  rcases Nat.lt_or_ge m 12 with h | h
  · have hvalid : Valid y (m + 1) 1 :=
      ⟨hy, by omega, h, le_rfl, (by decide : 1 ≤ 28).trans (le_daysInMonth (by omega) h)⟩
    exact dayOf_dayNumber hvalid
  · obtain rfl : m = 12 := by omega
    have hvalid : Valid (y + 1) 1 1 := ⟨by omega, le_rfl, by decide, le_rfl, (by decide : 1 ≤ 28).trans (le_daysInMonth le_rfl (by decide))⟩
    have hday := dayOf_dayNumber hvalid
    rwa [dayNumber, daysBeforeMonth_one, daysBeforeYear_succ hy] at hday

end LogAnalytics.Lib.Calendar
