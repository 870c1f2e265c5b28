import LogAnalytics.Lib.Loops
import LogAnalytics.Search.Service
import LogAnalytics.Timestamps
/-!
# The view of a day

`analyze --date` and `ReportBuilder.daily` make a range of a day each for itself, and the query
takes in both ends of a range. The one ends at the next midnight, the other a microsecond before.
-/
open LogAnalytics.Lib

namespace LogAnalytics

namespace Days

/-- `replace(hour=0, minute=0, second=0, microsecond=0)` -/
def midnight (c : Clock) : Clock := ⟨c.micros - c.timeOfDay, Nat.lt_of_le_of_lt (Nat.sub_le _ _) c.lt_end⟩

/-- `parse_timestamp` of one end of a range. -/
def parseEnd : Option Datetime → Except Exn (Option Clock)
  | none => .ok none
  | some d => (Timeutil.ensureUtc d).map Timeutil.bounded

/-- `parse_range` of datetimes: an end out of bounds is as good as none. -/
def parseRange (start stop : Option Datetime) (now : Clock) : Except Exn (Clock × Clock) := do
  let stop ← parseEnd stop
  let start ← parseEnd start
  Search.parseRange start stop now

def utc (c : Clock) : Datetime := { clock := c, offset := some 0 }

/-- The range of `analyze --date`, for the moment the date says; `none` where the command fails
because the date is out of bounds. -/
def analyzeRange (said now : Clock) : Option (Except Exn (Clock × Clock)) :=
  (Timeutil.bounded said).map fun moment => do
    let start := midnight moment
    let stop ← start.add dayMicros
    parseRange (some (utc start)) (some (utc stop)) now

/-- The range of `ReportBuilder.daily`: `build` parses it, and so does `overview`. -/
def dailyRange (day : Option Datetime) (now : Clock) : Except Exn (Clock × Clock) := do
  let anchor ← match day with
    | some d => .ok d
    | none => (now.add (-dayMicros)).map utc
  let start := { anchor with clock := midnight anchor.clock }
  let tomorrow ← start.clock.add dayMicros
  let stop ← tomorrow.add (-1)
  let range ← parseRange (some start) (some { anchor with clock := stop }) now
  parseRange (some (utc range.1)) (some (utc range.2)) now

/-! ## Ranges -/

theorem midnight_eq_self {c : Clock} (h : c.timeOfDay = 0) : midnight c = c := Clock.ext (by dsimp only [midnight]; omega)

theorem parseEnd_utc (c : Clock) : parseEnd (some (utc c)) = .ok (Timeutil.bounded c) := by
  have hutc : Timeutil.ensureUtc (utc c) = .ok c := Timeutil.ensureUtc_ok.2 (Int.sub_zero _)
  rw [parseEnd, hutc]
  rfl

theorem parseRange_utc (start stop now : Clock) : parseRange (some (utc start)) (some (utc stop)) now =
    Search.parseRange (Timeutil.bounded start) (Timeutil.bounded stop) now := by
  rw [parseRange, parseEnd_utc, parseEnd_utc]
  rfl

theorem bounded_eq_some {c : Clock} (hmin : Timeutil.minTimestamp ≤ c) (hmax : c ≤ Timeutil.maxTimestamp) :
    Timeutil.bounded c = some c := if_pos ⟨hmin, hmax⟩

theorem bounded_eq_none {c : Clock} (h : c < Timeutil.minTimestamp ∨ Timeutil.maxTimestamp < c) : Timeutil.bounded c = none := by
  refine if_neg fun hin => ?_
  simp only [Clock.le_def, Clock.lt_def] at hin h
  omega

theorem searchRange (start stop now : Clock) : Search.parseRange (some start) (some stop) now =
    if stop < start then .ok (stop, start) else .ok (start, stop) := rfl

theorem searchRange_now (start now : Clock) : Search.parseRange (some start) none now =
    if now < start then .ok (now, start) else .ok (start, now) := rfl

/-- Two days, each by its midnight, of which the second follows the first. -/
structure Consecutive (first second : Clock) : Prop where
  midnight : first.timeOfDay = 0
  next : second.micros = first.micros + dayMicros

theorem Consecutive.midnight_second {first second : Clock} (h : Consecutive first second) : second.timeOfDay = 0 := by
  have hfirst := h.midnight
  rw [Clock.timeOfDay] at hfirst ⊢
  rw [h.next, Nat.add_mod_right, hfirst]

theorem Consecutive.add {day tomorrow : Clock} (h : Consecutive day tomorrow) : day.add dayMicros = .ok tomorrow :=
  Clock.ofMicros_ok.2 (by have := h.next; omega)

theorem searchRange_yesterday {day tomorrow : Clock} (now : Clock) (h : Consecutive day tomorrow) :
    Search.parseRange none (some tomorrow) now = .ok (day, tomorrow) := by
  have hback : tomorrow.add (-dayMicros) = .ok day := Clock.ofMicros_ok.2 (by have := h.next; omega)
  have hforward : ¬tomorrow < day := by
    have := h.next
    rw [Clock.lt_def]
    omega
  unfold Search.parseRange
  dsimp only [Option.getD_some]
  rw [hback, ok_bind, if_neg hforward]

theorem dailyRange_utc {day tomorrow last : Clock} (now : Clock) (h : Consecutive day tomorrow) (hlast : tomorrow.add (-1) = .ok last) :
    dailyRange (some (utc day)) now = parseRange (some (utc day)) (some (utc last)) now >>= fun range =>
      parseRange (some (utc range.1)) (some (utc range.2)) now := by
  have hday : (utc day).clock = day := rfl
  unfold dailyRange
  dsimp only
  rw [ok_bind, hday, midnight_eq_self h.midnight, h.add, ok_bind, hlast, ok_bind]
  rfl

theorem analyzeRange_utc {day tomorrow : Clock} (now : Clock) (h : Consecutive day tomorrow) (hday : Timeutil.bounded day = some day) :
    analyzeRange day now = some (parseRange (some (utc day)) (some (utc tomorrow)) now) := by
  rw [analyzeRange, hday, Option.map_some]
  dsimp only
  rw [midnight_eq_self h.midnight, h.add, ok_bind]

/-- Where the midnight after the day is in bounds, both entry points take the day, one with that
midnight and one without. -/
theorem ranges_of_le {day tomorrow : Clock} (now : Clock) (h : Consecutive day tomorrow) (hmin : Timeutil.minTimestamp ≤ day)
    (hmax : tomorrow ≤ Timeutil.maxTimestamp) : ∃ last : Clock, last.micros + 1 = tomorrow.micros ∧
      analyzeRange day now = some (.ok (day, tomorrow)) ∧ dailyRange (some (utc day)) now = .ok (day, last) := by
  have hnext := h.next
  have hpos : 0 < dayMicros := by decide
  obtain ⟨last, hlast⟩ : ∃ last : Clock, last.micros + 1 = tomorrow.micros :=
    ⟨⟨tomorrow.micros - 1, by have := tomorrow.lt_end; omega⟩, by dsimp only; omega⟩
  have hmin' := Clock.le_def.1 hmin
  have hmax' := Clock.le_def.1 hmax
  have hday := bounded_eq_some hmin (Clock.le_def.2 (by omega))
  have htomorrow := bounded_eq_some (Clock.le_def.2 (by omega)) hmax
  have hbounded : Timeutil.bounded last = some last := bounded_eq_some (Clock.le_def.2 (by omega)) (Clock.le_def.2 (by omega))
  have hback : tomorrow.add (-1) = .ok last := Clock.ofMicros_ok.2 (by omega)
  have hforward : ¬tomorrow < day := by rw [Clock.lt_def]; omega
  have hforward' : ¬last < day := by rw [Clock.lt_def]; omega
  have hparse : parseRange (some (utc day)) (some (utc last)) now = .ok (day, last) := by
    rw [parseRange_utc, hday, hbounded, searchRange, if_neg hforward']
  refine ⟨last, hlast, ?_, ?_⟩
  · rw [analyzeRange_utc now h hday, parseRange_utc, hday, htomorrow, searchRange, if_neg hforward]
  · rw [dailyRange_utc now h hback, hparse, ok_bind, hparse]

/-- The last moment in bounds is a midnight. The day it starts ends out of bounds: its range goes
to the present moment, and a present moment out of bounds is replaced once more. -/
theorem ranges_of_max {yesterday tomorrow : Clock} (now : Clock) (hyesterday : Consecutive yesterday Timeutil.maxTimestamp)
    (h : Consecutive Timeutil.maxTimestamp tomorrow) :
    analyzeRange Timeutil.maxTimestamp now =
      some (.ok (if now < Timeutil.maxTimestamp then (now, Timeutil.maxTimestamp) else (Timeutil.maxTimestamp, now))) ∧
    dailyRange (some (utc Timeutil.maxTimestamp)) now =
      .ok (if now < Timeutil.maxTimestamp then
          if now < Timeutil.minTimestamp then (yesterday, Timeutil.maxTimestamp) else (now, Timeutil.maxTimestamp)
        else (Timeutil.maxTimestamp, now)) := by
  have hnext := h.next
  have hlong : 1 < dayMicros := by decide
  have hspan : Timeutil.minTimestamp ≤ Timeutil.maxTimestamp := by decide
  obtain ⟨last, hlast⟩ : ∃ last : Clock, last.micros + 1 = tomorrow.micros :=
    ⟨⟨tomorrow.micros - 1, by have := tomorrow.lt_end; omega⟩, by dsimp only; omega⟩
  have hback : tomorrow.add (-1) = .ok last := Clock.ofMicros_ok.2 (by omega)
  have hday := bounded_eq_some hspan (Clock.le_def.2 (Nat.le_refl _))
  have htomorrow := bounded_eq_none (.inr (Clock.lt_def.2 (by omega : Timeutil.maxTimestamp.micros < tomorrow.micros)))
  have hbounded := bounded_eq_none (.inr (Clock.lt_def.2 (by omega : Timeutil.maxTimestamp.micros < last.micros)))
  have hnow : Search.parseRange (some Timeutil.maxTimestamp) none now =
      .ok (if now < Timeutil.maxTimestamp then (now, Timeutil.maxTimestamp) else (Timeutil.maxTimestamp, now)) := by
    rw [searchRange_now, apply_ite Except.ok]
  rw [analyzeRange_utc now h hday, dailyRange_utc now h hback, parseRange_utc, parseRange_utc, hday, htomorrow, hbounded, hnow, ok_bind]
  refine ⟨rfl, ?_⟩
  rw [parseRange_utc]
  split
  · next hlt =>
    rw [hday]
    split
    · next hold => rw [bounded_eq_none (.inl hold), searchRange_yesterday now hyesterday]
    · next hnew =>
      have hnot : ¬Timeutil.maxTimestamp < now := by
        rw [Clock.lt_def] at hlt ⊢
        omega
      rw [bounded_eq_some (Nat.not_lt.1 hnew) (Nat.le_of_lt hlt), searchRange, if_neg hnot]
  · next hge =>
    rw [hday]
    by_cases hmax : Timeutil.maxTimestamp < now
    · rw [bounded_eq_none (.inr hmax), searchRange_now, if_neg hge]
    · rw [bounded_eq_some (hspan.trans (Nat.not_lt.1 hge)) (Nat.not_lt.1 hmax), searchRange, if_neg hge]

/-! ## Events -/

variable {C : Type}

/-- The events a range counts. -/
def view (range : Clock × Clock) (rows : List (Search.Row C)) : List (Search.Row C) := rows.filter (Search.inRange range)

/-- Both entry points take both days and count the same events of a day, and each event of the two
days is counted once. -/
def Partitioned (rows : List (Search.Row C)) (first second now : Clock) : Prop :=
  ∃ cli₁ cli₂ daily₁ daily₂, analyzeRange first now = some (.ok cli₁) ∧ analyzeRange second now = some (.ok cli₂) ∧
    dailyRange (some (utc first)) now = .ok daily₁ ∧ dailyRange (some (utc second)) now = .ok daily₂ ∧
    view cli₁ rows = view daily₁ rows ∧ view cli₂ rows = view daily₂ rows ∧
    ∀ row ∈ rows, row.timestamp.day = first.day ∨ row.timestamp.day = second.day →
      Search.inRange cli₁ row ≠ Search.inRange cli₂ row ∧ Search.inRange daily₁ row ≠ Search.inRange daily₂ row

/-- The days are in bounds and no event is at the midnight after one of them. The last moment in
bounds starts a day that goes to the present moment. -/
def Apart (rows : List (Search.Row C)) (first second now : Clock) : Prop :=
  Timeutil.minTimestamp ≤ first ∧
    (second < Timeutil.maxTimestamp ∧
        (∀ row ∈ rows, row.timestamp ≠ second ∧ row.timestamp.micros ≠ second.micros + dayMicros) ∨
      second = Timeutil.maxTimestamp ∧ ∀ row ∈ rows,
        (row.timestamp.day = first.day → row.timestamp < now) ∧
        (row.timestamp.day = second.day → second < row.timestamp ∧ row.timestamp ≤ now) ∧
        (now < Timeutil.minTimestamp → ¬(now ≤ row.timestamp ∧ row.timestamp < first)))

theorem view_eq_iff {range range' : Clock × Clock} {rows : List (Search.Row C)} :
    view range rows = view range' rows ↔ ∀ row ∈ rows, Search.inRange range row = Search.inRange range' row := by
  refine ⟨fun h row hrow => ?_, List.filter_congr⟩
  have hmem : row ∈ view range rows ↔ row ∈ view range' rows := by rw [h]
  rw [view, view, List.mem_filter, List.mem_filter, and_iff_right hrow, and_iff_right hrow] at hmem
  exact Bool.eq_iff_iff.2 hmem

/-- The days of a row, by its position. -/
theorem day_eq_iff {day : Clock} (h : day.timeOfDay = 0) (c : Clock) :
    c.day = day.day ↔ day.micros ≤ c.micros ∧ c.micros < day.micros + dayMicros := by
  have hpos : 0 < dayMicros := by decide
  have hday := day.day_timeOfDay
  rw [h, Nat.add_zero] at hday
  rw [Clock.day, Nat.div_eq_iff hpos, hday]
  omega

theorem partitioned_iff {rows : List (Search.Row C)} {first second now : Clock} {cli₁ cli₂ daily₁ daily₂ : Clock × Clock}
    (hcli₁ : analyzeRange first now = some (.ok cli₁)) (hcli₂ : analyzeRange second now = some (.ok cli₂))
    (hdaily₁ : dailyRange (some (utc first)) now = .ok daily₁) (hdaily₂ : dailyRange (some (utc second)) now = .ok daily₂) :
    Partitioned rows first second now ↔ ∀ row ∈ rows,
      Search.inRange cli₁ row = Search.inRange daily₁ row ∧ Search.inRange cli₂ row = Search.inRange daily₂ row ∧
        (row.timestamp.day = first.day ∨ row.timestamp.day = second.day → Search.inRange cli₁ row ≠ Search.inRange cli₂ row) := by
  constructor
  · rintro ⟨_, _, _, _, hcli₁', hcli₂', hdaily₁', hdaily₂', hview₁, hview₂, honce⟩ row hrow
    rw [hcli₁] at hcli₁'
    rw [hcli₂] at hcli₂'
    rw [hdaily₁] at hdaily₁'
    rw [hdaily₂] at hdaily₂'
    cases hcli₁'
    cases hcli₂'
    cases hdaily₁'
    cases hdaily₂'
    exact ⟨view_eq_iff.1 hview₁ row hrow, view_eq_iff.1 hview₂ row hrow, fun hday => (honce row hrow hday).1⟩
  · intro h
    refine ⟨_, _, _, _, hcli₁, hcli₂, hdaily₁, hdaily₂, view_eq_iff.2 fun row hrow => (h row hrow).1,
      view_eq_iff.2 fun row hrow => (h row hrow).2.1, fun row hrow hday => ?_⟩
    obtain ⟨hsame₁, hsame₂, honce⟩ := h row hrow
    exact ⟨honce hday, hsame₁ ▸ hsame₂ ▸ honce hday⟩

theorem not_partitioned {rows : List (Search.Row C)} {first second now : Clock}
    (h : Timeutil.bounded first = none ∨ Timeutil.bounded second = none) : ¬Partitioned rows first second now := by
  rintro ⟨_, _, _, _, hcli₁, hcli₂, -⟩
  rcases h with h | h
  · rw [analyzeRange, h] at hcli₁
    cases hcli₁
  · rw [analyzeRange, h] at hcli₂
    cases hcli₂

theorem midnight_micros {c : Clock} (h : c.timeOfDay = 0) : c.micros = c.day * dayMicros := by
  have hday := c.day_timeOfDay
  omega

theorem midnight_maxTimestamp : Timeutil.maxTimestamp.timeOfDay = 0 := by decide

/-- A midnight in bounds that is not the last one is followed by another. -/
theorem exists_tomorrow {day : Clock} (h : day.timeOfDay = 0) (hmax : day < Timeutil.maxTimestamp) :
    ∃ tomorrow, Consecutive day tomorrow ∧ tomorrow ≤ Timeutil.maxTimestamp := by
  have hlt := Clock.lt_def.1 hmax
  have hle : day.micros + dayMicros ≤ Timeutil.maxTimestamp.micros := by
    rw [midnight_micros h, midnight_micros midnight_maxTimestamp] at hlt ⊢
    rw [← Nat.succ_mul]
    exact Nat.mul_le_mul_right _ (Nat.lt_of_mul_lt_mul_right hlt)
  exact ⟨⟨_, Nat.lt_of_le_of_lt hle Timeutil.maxTimestamp.lt_end⟩, ⟨h, rfl⟩, hle⟩

/-- Within the bounds the midnights decide. -/
theorem partitioned_iff_of_lt (rows : List (Search.Row C)) {first second : Clock} (h : Consecutive first second) (now : Clock)
    (hmin : Timeutil.minTimestamp ≤ first) (hmax : second < Timeutil.maxTimestamp) :
    Partitioned rows first second now ↔
      ∀ row ∈ rows, row.timestamp ≠ second ∧ row.timestamp.micros ≠ second.micros + dayMicros := by
  obtain ⟨third, hthird, hmax'⟩ := exists_tomorrow h.midnight_second hmax
  have hnext := h.next
  have hnext' := hthird.next
  have hpos : 0 < dayMicros := by decide
  have hmin' : Timeutil.minTimestamp ≤ second := Nat.le_trans hmin (by omega)
  obtain ⟨last₁, hlast₁, hcli₁, hdaily₁⟩ := ranges_of_le now h hmin (Nat.le_of_lt hmax)
  obtain ⟨last₂, hlast₂, hcli₂, hdaily₂⟩ := ranges_of_le now hthird hmin' hmax'
  rw [partitioned_iff hcli₁ hcli₂ hdaily₁ hdaily₂]
  refine forall₂_congr fun row _ => ?_
  simp only [Search.inRange, day_eq_iff h.midnight, day_eq_iff h.midnight_second, decide_eq_decide, Clock.le_def, ne_eq,
    Clock.ext_iff]
  omega

/-- The day before the last moment in bounds, and the day it starts. -/
theorem partitioned_iff_of_eq (rows : List (Search.Row C)) {first : Clock} (h : Consecutive first Timeutil.maxTimestamp) (now : Clock)
    (hmin : Timeutil.minTimestamp ≤ first) :
    Partitioned rows first Timeutil.maxTimestamp now ↔ ∀ row ∈ rows,
      (row.timestamp.day = first.day → row.timestamp < now) ∧
      (row.timestamp.day = Timeutil.maxTimestamp.day → Timeutil.maxTimestamp < row.timestamp ∧ row.timestamp ≤ now) ∧
      (now < Timeutil.minTimestamp → ¬(now ≤ row.timestamp ∧ row.timestamp < first)) := by
  have hfits : Timeutil.maxTimestamp.micros + dayMicros < endMicros := by decide
  have hthird : Consecutive Timeutil.maxTimestamp ⟨_, hfits⟩ := ⟨midnight_maxTimestamp, rfl⟩
  have hnext := h.next
  have hpos : 0 < dayMicros := by decide
  have hmin' := Clock.le_def.1 hmin
  obtain ⟨last₁, hlast₁, hcli₁, hdaily₁⟩ := ranges_of_le now h hmin (Nat.le_refl _)
  obtain ⟨hcli₂, hdaily₂⟩ := ranges_of_max now h hthird
  rw [partitioned_iff hcli₁ hcli₂ hdaily₁ hdaily₂]
  refine forall₂_congr fun row _ => ?_
  rw [day_eq_iff h.midnight, day_eq_iff midnight_maxTimestamp]
  clear hcli₁ hdaily₁ hcli₂ hdaily₂ hthird
  generalize Timeutil.maxTimestamp = last at *
  generalize Timeutil.minTimestamp = least at *
  -- the three ranges of the last day, for a present moment before, within and after the bounds
  split
  · split <;> simp only [Search.inRange, decide_eq_decide, Clock.le_def, Clock.lt_def, ne_eq] at * <;> grind
  · simp only [Search.inRange, decide_eq_decide, Clock.le_def, Clock.lt_def, ne_eq] at *
    grind

/-- The views of two days in a row partition their events exactly when no event is at a midnight
that ends one of them. -/
theorem partitioned_iff_apart (rows : List (Search.Row C)) {first second : Clock} (h : Consecutive first second) (now : Clock) :
    Partitioned rows first second now ↔ Apart rows first second now := by
  by_cases hmin : Timeutil.minTimestamp ≤ first
  · rw [Apart, and_iff_right hmin]
    rcases Nat.lt_trichotomy second.micros Timeutil.maxTimestamp.micros with hlt | heq | hgt
    · have hne : second ≠ Timeutil.maxTimestamp := fun hsecond => Nat.lt_irrefl _ (hsecond ▸ hlt)
      rw [partitioned_iff_of_lt rows h now hmin hlt, iff_false_intro hne, false_and, or_false, and_iff_right (Clock.lt_def.2 hlt)]
    · obtain rfl : second = Timeutil.maxTimestamp := Clock.ext heq
      have hirrefl : ¬Timeutil.maxTimestamp < Timeutil.maxTimestamp := Nat.lt_irrefl _
      rw [partitioned_iff_of_eq rows h now hmin, iff_false_intro hirrefl, false_and, false_or, and_iff_right rfl]
    · refine iff_of_false (not_partitioned (.inr (bounded_eq_none (.inr hgt)))) ?_
      rintro (⟨hlt, -⟩ | ⟨heq, -⟩)
      · exact Nat.lt_asymm hgt hlt
      · exact Nat.lt_irrefl _ (heq ▸ hgt)
  · exact iff_of_false (not_partitioned (.inl (bounded_eq_none (.inl (Nat.not_le.1 hmin))))) fun hapart => hmin hapart.1

/-- The start of 1990 and the day after, and an event at noon of each. -/
def secondDay : Clock := ⟨Timeutil.minTimestamp.micros + dayMicros, by decide⟩

def noonRow (day : Nat) (hday : day < 2) : Search.Row Unit :=
  ⟨⟨Timeutil.minTimestamp.micros + day * dayMicros + dayMicros / 2, by
    have hfits : Timeutil.minTimestamp.micros + 2 * dayMicros < endMicros := by decide
    have hmul := Nat.mul_le_mul_right dayMicros (Nat.le_of_lt_succ hday)
    omega⟩, [], ()⟩

theorem partitioned_iff_apart_noon :
    Partitioned [noonRow 0 (by decide), noonRow 1 (by decide)] Timeutil.minTimestamp secondDay secondDay ↔
      Apart [noonRow 0 (by decide), noonRow 1 (by decide)] Timeutil.minTimestamp secondDay secondDay :=
  partitioned_iff_apart _ ⟨by decide, rfl⟩ secondDay

/-- An event at midnight is in the view of both days on the command line. -/
theorem midnight_not_partitioned :
    ¬Partitioned [(⟨secondDay, [], ()⟩ : Search.Row Unit)] Timeutil.minTimestamp secondDay secondDay := by
  have hlt : secondDay < Timeutil.maxTimestamp := by decide
  rw [partitioned_iff_of_lt _ ⟨by decide, rfl⟩ secondDay (Nat.le_refl _) hlt]
  exact fun h => (h _ (List.mem_singleton_self _)).1 rfl

end Days

end LogAnalytics
