import Mathlib.Algebra.BigOperators.Ring.Finset
import Mathlib.Data.List.Count
import Mathlib.Data.List.MinMax
import LogAnalytics.Analytics.TimeSeries
import LogAnalytics.Lib.Loops
import LogAnalytics.Lib.Table
/-!
# Buckets

`bucketize` counts timestamps by window, and `build_series` goes through the windows from the
first bucket to the last. `iter_windows` adds the length of a window once more after the last one,
which overflows where that window ends with the calendar.
-/
open LogAnalytics.Lib

namespace LogAnalytics

/-- A point of `build_series`, whose count is the value without the fraction. -/
structure SeriesPoint where
  bucket : Clock
  value : ℚ
  count : ℤ

structure BucketSeries where
  metric : String
  window : Window
  points : List SeriesPoint := []

namespace Buckets

/-- `int` of a number -/
def truncate (q : ℚ) : ℤ := q.num.tdiv q.den

/-- The loop of `bucketize` from `index` on. -/
def bucketizeFrom (w : Window) (values : List ℚ) : Nat → Table Clock ℚ → List Datetime → Except Exn (Table Clock ℚ)
  | _, buckets, [] => .ok buckets
  | index, buckets, moment :: rest => do
    let moment ← Timeutil.ensureUtc moment
    let key := Timeutil.floorToWindow w moment
    let amount ←
      if values = [] then .ok 1
      else
        match values[index]? with
        | some value => .ok value
        | none => .error ⟨.other "IndexError", "list index out of range"⟩
    bucketizeFrom w values (index + 1) (buckets.put key ((buckets.get key).getD 0 + amount)) rest

/-- `bucketize`; no values are as good as an empty list. -/
def bucketize (timestamps : List Datetime) (w : Window) (values : List ℚ) : Except Exn (Table Clock ℚ) :=
  bucketizeFrom w values 0 [] timestamps

def utcOr (value : Option Datetime) (default : Clock) : Except Exn Clock :=
  match value with
  | some d => Timeutil.ensureUtc d
  | none => .ok default

@[simp] theorem utcOr_none (default : Clock) : utcOr none default = .ok default := rfl

def pointOf (bucket : Clock) (value : ℚ) : SeriesPoint := { bucket := bucket, value := value, count := truncate value }

/-- `build_series` -/
def buildSeries (buckets : Table Clock ℚ) (metric : String) (w : Window) (start stop : Option Datetime) (fillGaps : Bool) :
    Except Exn BucketSeries :=
  match buckets.keys.argmin Clock.micros, buckets.keys.argmax Clock.micros with
  | some least, some greatest =>
    if fillGaps then do
      let first ← utcOr start least
      let last ← utcOr stop greatest
      let windows ← Timeutil.iterWindows first last w
      .ok { metric := metric, window := w, points := windows.map fun bucket => pointOf bucket ((buckets.get bucket).getD 0) }
    else
      .ok {
        metric := metric
        window := w
        points := (buckets.mergeSort fun a b => a.1 ≤ b.1).map fun b => pointOf b.1 b.2 }
  | _, _ => .ok { metric := metric, window := w }

/-! ## What is counted -/

/-- The buckets of moments in UTC. -/
def tally (w : Window) (buckets : Table Clock ℚ) (moments : List Clock) : Table Clock ℚ :=
  moments.foldl (fun buckets moment =>
    buckets.put (Timeutil.floorToWindow w moment) ((buckets.get (Timeutil.floorToWindow w moment)).getD 0 + 1)) buckets

theorem bucketizeFrom_eq (w : Window) (timestamps : List Datetime) : ∀ (index : Nat) (buckets : Table Clock ℚ),
    bucketizeFrom w [] index buckets timestamps = (timestamps.mapM Timeutil.ensureUtc).map (tally w buckets) := by
  induction timestamps with
  | nil => intro _ _; rfl
  | cons moment rest ih =>
    intro index buckets
    rw [bucketizeFrom, List.mapM_cons]
    cases Timeutil.ensureUtc moment with
    | error exn => rfl
    | ok utc =>
      simp only [Bind.bind, Except.bind, if_true, ih]
      cases rest.mapM Timeutil.ensureUtc <;> rfl

theorem mem_keys_tally {w : Window} {moments : List Clock} : ∀ {buckets : Table Clock ℚ} {key : Clock},
    key ∈ (tally w buckets moments).keys ↔ key ∈ buckets.keys ∨ key ∈ moments.map (Timeutil.floorToWindow w) := by
  induction moments with
  | nil => intro buckets key; simp [tally]
  | cons moment rest ih =>
    intro buckets key
    rw [tally, List.foldl_cons, ← tally, ih, Table.mem_keys_put, List.map_cons, List.mem_cons]
    tauto

/-- A bucket gets one for each moment of its window. -/
theorem get_tally {w : Window} {moments : List Clock} : ∀ {buckets : Table Clock ℚ} {key : Clock},
    ((tally w buckets moments).get key).getD 0 =
      (buckets.get key).getD 0 + ((moments.map (Timeutil.floorToWindow w)).count key : ℕ) := by
  induction moments with
  | nil => intro buckets key; simp [tally]
  | cons moment rest ih =>
    intro buckets key
    rw [tally, List.foldl_cons, ← tally, ih, Table.get_put, List.map_cons, List.count_cons]
    by_cases hk : key = Timeutil.floorToWindow w moment
    · rw [if_pos hk, hk, if_pos (beq_self_eq_true _), Option.getD_some, Nat.cast_add, Nat.cast_one, add_assoc, add_comm 1]
    · have hne : ¬(Timeutil.floorToWindow w moment == key) = true := by simpa using Ne.symm hk
      rw [if_neg hk, if_neg hne, Nat.add_zero]

/-! ## The series -/

/-- The timestamp is in the window of the point. -/
def Holds (w : Window) (p : SeriesPoint) (t : Datetime) : Prop :=
  p.bucket.micros ≤ t.instant ∧ t.instant < p.bucket.micros + w.micros

instance (w : Window) (p : SeriesPoint) (t : Datetime) : Decidable (Holds w p t) := inferInstanceAs (Decidable (_ ∧ _))

/-- A series that counts each timestamp in its window, and leaves no window out between the first
timestamp and the last. -/
structure Bucketed (w : Window) (timestamps : List Datetime) (points : List SeriesPoint) : Prop where
  consecutive : ∃ first count, points.map (·.bucket.micros) = (List.range count).map fun i => (first + i) * w.micros
  aligned : ∀ p ∈ points, w.micros ∣ p.bucket.timeOfDay
  first : ∀ p ∈ points.head?, ∃ t ∈ timestamps, Holds w p t
  last : ∀ p ∈ points.getLast?, ∃ t ∈ timestamps, Holds w p t
  covered : ∀ t ∈ timestamps, ∃ p ∈ points, Holds w p t
  counted : ∀ p ∈ points, p.value = timestamps.countP (Holds w p) ∧ p.count = timestamps.countP (Holds w p)
  total : (points.map (·.value)).sum = timestamps.length

theorem instants_eq {timestamps : List Datetime} {moments : List Clock} (h : timestamps.mapM Timeutil.ensureUtc = .ok moments) :
    timestamps.map Datetime.instant = moments.map fun c => (c.micros : ℤ) := by
  rw [mapM_ok] at h
  induction h with
  | nil => rfl
  | cons hutc _ ih => rw [List.map_cons, List.map_cons, Timeutil.ensureUtc_ok.1 hutc, ih]

section
variable {w : Window} {moments : List Clock}

/-- The start of a window is in that window. -/
theorem floorToWindow_idem (w : Window) (c : Clock) :
    Timeutil.floorToWindow w (Timeutil.floorToWindow w c) = Timeutil.floorToWindow w c := by
  rw [Clock.ext_iff, Timeutil.floorToWindow_micros, Timeutil.floorToWindow_micros, Nat.mul_div_cancel _ w.micros_pos]

theorem mem_window {b : Nat} (hb : w.micros ∣ b) (c : Clock) :
    (Timeutil.floorToWindow w c).micros = b ↔ b ≤ c.micros ∧ c.micros < b + w.micros := by
  obtain ⟨k, rfl⟩ := hb
  have hpos := w.micros_pos
  rw [Timeutil.floorToWindow_micros, Nat.mul_comm w.micros k, Nat.mul_left_inj hpos.ne', Nat.div_eq_iff hpos]
  omega

/-- The windows of the moments, by where they start. -/
def starts (w : Window) (moments : List Clock) : List Nat := moments.map fun c => (Timeutil.floorToWindow w c).micros

theorem micros_injective : Function.Injective Clock.micros := fun _ _ => Clock.ext

theorem value_eq (b : Clock) : ((tally w [] moments).get b).getD 0 = ((starts w moments).count b.micros : ℕ) := by
  have hzero : ((Table.get ([] : Table Clock ℚ) b).getD 0 : ℚ) = 0 := rfl
  have hmap : starts w moments = (moments.map (Timeutil.floorToWindow w)).map Clock.micros := by rw [List.map_map]; rfl
  rw [get_tally, hzero, zero_add, hmap, List.count_map_of_injective _ _ micros_injective]

theorem count_starts {b : Nat} (hb : w.micros ∣ b) :
    (starts w moments).count b = moments.countP fun c => decide (b ≤ c.micros ∧ c.micros < b + w.micros) := by
  rw [starts, List.count_eq_countP, List.countP_map]
  refine List.countP_congr fun c _ => ?_
  rw [Function.comp_apply, beq_iff_eq, decide_eq_true_eq, mem_window hb]

/-- The first and the last bucket, and whatever is between them. -/
structure Bounds (w : Window) (moments : List Clock) (range : Clock × Clock) : Prop where
  first : ∃ c ∈ moments, range.1 = Timeutil.floorToWindow w c
  last : ∃ c ∈ moments, range.2 = Timeutil.floorToWindow w c
  between : ∀ c ∈ moments, range.1 ≤ Timeutil.floorToWindow w c ∧ Timeutil.floorToWindow w c ≤ range.2

theorem exists_bounds (hne : moments ≠ []) : ∃ range, Bounds w moments range ∧
    (tally w [] moments).keys.argmin Clock.micros = some range.1 ∧
    (tally w [] moments).keys.argmax Clock.micros = some range.2 := by
  have hmem : ∀ key, key ∈ (tally w [] moments).keys ↔ ∃ c ∈ moments, key = Timeutil.floorToWindow w c := fun key => by
    rw [mem_keys_tally, List.mem_map]
    simp only [Table.keys, List.map_nil, List.not_mem_nil, false_or, eq_comm]
  obtain ⟨c, hc⟩ := List.exists_mem_of_ne_nil _ hne
  have hkeys : (tally w [] moments).keys ≠ [] := List.ne_nil_of_mem ((hmem _).2 ⟨c, hc, rfl⟩)
  obtain ⟨first, hfirst⟩ := Option.ne_none_iff_exists'.1 (mt (List.argmin_eq_none (f := Clock.micros)).1 hkeys)
  obtain ⟨last, hlast⟩ := Option.ne_none_iff_exists'.1 (mt (List.argmax_eq_none (f := Clock.micros)).1 hkeys)
  exact ⟨(first, last), {
    first := (hmem first).1 (List.argmin_mem hfirst)
    last := (hmem last).1 (List.argmax_mem hlast)
    between := fun c hc =>
      have hkey := (hmem _).2 ⟨c, hc, rfl⟩
      ⟨List.le_of_mem_argmin hkey hfirst, List.le_of_mem_argmax hkey hlast⟩ }, hfirst, hlast⟩

theorem countP_holds {timestamps : List Datetime} (h : timestamps.mapM Timeutil.ensureUtc = .ok moments) (p : SeriesPoint) :
    timestamps.countP (Holds w p) =
      moments.countP fun c => decide (p.bucket.micros ≤ c.micros ∧ c.micros < p.bucket.micros + w.micros) := by
  have hmap := congrArg (List.countP fun z : ℤ => decide ((p.bucket.micros : ℤ) ≤ z ∧ z < p.bucket.micros + w.micros)) (instants_eq h)
  rw [List.countP_map, List.countP_map] at hmap
  refine hmap.trans (List.countP_congr fun c _ => ?_)
  rw [Function.comp_apply, decide_eq_true_eq, decide_eq_true_eq]
  omega

theorem truncate_natCast (n : Nat) : truncate n = n := by
  rw [truncate, Rat.num_natCast, Rat.den_natCast, Nat.cast_one, Int.tdiv_one]

/-- A point in whose window a moment is has a timestamp. -/
theorem exists_holds {timestamps : List Datetime} (h : timestamps.mapM Timeutil.ensureUtc = .ok moments) {p : SeriesPoint} {c : Clock}
    (hc : c ∈ moments) (hp : (Timeutil.floorToWindow w c).micros = p.bucket.micros) : ∃ t ∈ timestamps, Holds w p t := by
  have hmem : (c.micros : ℤ) ∈ timestamps.map Datetime.instant := instants_eq h ▸ List.mem_map_of_mem hc
  obtain ⟨t, ht, hinstant⟩ := List.mem_map.1 hmem
  have hdvd : w.micros ∣ p.bucket.micros := by
    rw [← hp, Timeutil.floorToWindow_micros]
    exact Nat.dvd_mul_left _ _
  have hwindow := (mem_window hdvd c).1 hp
  refine ⟨t, ht, ?_⟩
  rw [Holds, hinstant]
  omega

/-- The windows of a range are multiples of their length, from the first bucket to the last. -/
theorem windowStarts_eq {range : Clock × Clock} (hrange : Bounds w moments range) :
    ∃ k n, range.1.micros = k * w.micros ∧ range.2.micros = (k + n) * w.micros ∧
      Timeutil.windowStarts w range = (List.range (n + 1)).map fun i => (k + i) * w.micros := by
  obtain ⟨first, hfirst, hrange1⟩ := hrange.first
  obtain ⟨last, -, hrange2⟩ := hrange.last
  have hle : range.1.micros ≤ range.2.micros := Nat.le_trans (hrange.between first hfirst).1 (hrange.between first hfirst).2
  rw [Timeutil.windowStarts, Timeutil.windowCount, hrange1, hrange2, floorToWindow_idem, floorToWindow_idem]
  rw [hrange1, hrange2] at hle
  simp only [Timeutil.floorToWindow_micros] at hle ⊢
  rw [← Nat.sub_mul, Nat.mul_div_cancel _ w.micros_pos]
  have hk := Nat.le_of_mul_le_mul_right hle w.micros_pos
  refine ⟨_, _, rfl, by rw [Nat.add_sub_cancel' hk], List.map_congr_left fun i _ => (Nat.add_mul _ _ _).symm⟩

/-- The points of the windows of a range, each with the moments in it. -/
theorem bucketed {timestamps : List Datetime} (h : timestamps.mapM Timeutil.ensureUtc = .ok moments) {range : Clock × Clock}
    (hrange : Bounds w moments range) {windows : List Clock} (hwindows : windows.map Clock.micros = Timeutil.windowStarts w range) :
    Bucketed w timestamps (windows.map fun bucket => pointOf bucket (((tally w [] moments).get bucket).getD 0)) := by
  obtain ⟨k, n, hfirst, hlast, hstarts⟩ := windowStarts_eq hrange
  rw [hstarts] at hwindows
  have hdvd : ∀ b ∈ windows, w.micros ∣ b.micros := fun b hb => by
    have hmem : b.micros ∈ windows.map Clock.micros := List.mem_map_of_mem hb
    rw [hwindows] at hmem
    obtain ⟨i, -, hi⟩ := List.mem_map.1 hmem
    exact ⟨k + i, hi.symm.trans (Nat.mul_comm _ _)⟩
  have hwindow : ∀ c ∈ moments, (Timeutil.floorToWindow w c).micros ∈ windows.map Clock.micros := fun c hc => by
    have hbetween := hrange.between c hc
    have hmem := @Timeutil.mem_windowStarts w range _ hbetween.1 hbetween.2
    rwa [floorToWindow_idem, hstarts, ← hwindows] at hmem
  constructor
  case consecutive =>
    refine ⟨k, n + 1, ?_⟩
    rw [List.map_map, ← hwindows]
    rfl
  case aligned =>
    intro p hp
    obtain ⟨b, hb, rfl⟩ := List.mem_map.1 hp
    exact (Nat.dvd_mod_iff w.micros_dvd).2 (hdvd b hb)
  case first =>
    intro p hp
    obtain ⟨c, hc, hrange1⟩ := hrange.first
    have hhead : (windows.map Clock.micros).head? = some (k * w.micros) := by
      rw [hwindows, List.range_succ_eq_map]
      rfl
    rw [List.head?_map] at hhead hp
    obtain ⟨b, hb, hmicros⟩ := Option.map_eq_some_iff.1 hhead
    rw [hb] at hp
    cases hp
    exact exists_holds h hc (by rw [← hrange1, hfirst, ← hmicros]; rfl)
  case last =>
    intro p hp
    obtain ⟨c, hc, hrange2⟩ := hrange.last
    have hend : (windows.map Clock.micros).getLast? = some ((k + n) * w.micros) := by
      rw [hwindows, List.range_succ, List.map_append]
      exact List.getLast?_concat
    rw [List.getLast?_map] at hend hp
    obtain ⟨b, hb, hmicros⟩ := Option.map_eq_some_iff.1 hend
    rw [hb] at hp
    cases hp
    exact exists_holds h hc (by rw [← hrange2, hlast, ← hmicros]; rfl)
  case covered =>
    intro t ht
    have hinstant : t.instant ∈ moments.map fun c => (c.micros : ℤ) := instants_eq h ▸ List.mem_map_of_mem ht
    obtain ⟨c, hc, hmicros⟩ := List.mem_map.1 hinstant
    obtain ⟨b, hb, hstart⟩ := List.mem_map.1 (hwindow c hc)
    have hin := (mem_window (hdvd b hb) c).1 hstart.symm
    refine ⟨_, List.mem_map_of_mem hb, ?_⟩
    rw [Holds, ← hmicros]
    dsimp only [pointOf]
    omega
  case counted =>
    intro p hp
    obtain ⟨b, hb, rfl⟩ := List.mem_map.1 hp
    have hvalue : ((tally w [] moments).get b).getD 0 =
        (timestamps.countP (Holds w (pointOf b (((tally w [] moments).get b).getD 0))) : ℕ) := by
      rw [value_eq, count_starts (hdvd b hb), countP_holds h]
      rfl
    exact ⟨hvalue, (congrArg truncate hvalue).trans (truncate_natCast _)⟩
  case total =>
    have hlength : moments.length = timestamps.length := by
      have hmap := congrArg List.length (instants_eq h)
      rw [List.length_map, List.length_map] at hmap
      exact hmap.symm
    have hnodup : (windows.map Clock.micros).Nodup := hwindows ▸ hstarts ▸ Timeutil.nodup_windowStarts w range
    have hsum := @sum_count Nat _ (starts w moments) _ hnodup fun b hb => by
      obtain ⟨c, hc, rfl⟩ := List.mem_map.1 hb
      exact hwindow c hc
    rw [starts, List.length_map, hlength, ← starts, List.map_map] at hsum
    rw [List.map_map, ← hsum, Nat.cast_list_sum, List.map_map]
    exact congrArg List.sum (List.map_congr_left fun b _ => value_eq b)

/-- The window of the timestamp and the start of the next one are in the calendar. -/
def Fits (w : Window) (t : Datetime) : Prop := 0 ≤ t.instant ∧ (t.instant / w.micros + 1) * w.micros < endMicros

instance (w : Window) (t : Datetime) : Decidable (Fits w t) := inferInstanceAs (Decidable (_ ∧ _))

theorem fits_iff {t : Datetime} {c : Clock} (h : t.instant = c.micros) :
    Fits w t ↔ (Timeutil.floorToWindow w c).micros + w.micros < endMicros := by
  rw [Fits, h, Timeutil.floorToWindow_micros, and_iff_right (Int.natCast_nonneg _), ← Nat.succ_mul]
  exact_mod_cast Iff.rfl

theorem exists_ensureUtc {t : Datetime} (h : Fits w t) : ∃ c, Timeutil.ensureUtc t = .ok c := by
  have hpos : (0 : ℤ) < w.micros := Int.natCast_pos.2 w.micros_pos
  have hnext := Int.lt_ediv_add_one_mul_self t.instant hpos
  have hend := hnext.trans h.2
  exact ⟨⟨t.instant.toNat, by have := h.1; omega⟩, Timeutil.ensureUtc_ok.2 (Int.toNat_of_nonneg h.1).symm⟩

/-- The last bucket decides whether all fit. -/
theorem forall_fits_iff {timestamps : List Datetime} (h : timestamps.mapM Timeutil.ensureUtc = .ok moments) {range : Clock × Clock}
    (hrange : Bounds w moments range) : (∀ t ∈ timestamps, Fits w t) ↔ range.2.micros + w.micros < endMicros := by
  have hinstants := instants_eq h
  constructor
  · intro hfits
    obtain ⟨c, hc, hlast⟩ := hrange.last
    have hmem : (c.micros : ℤ) ∈ timestamps.map Datetime.instant := hinstants ▸ List.mem_map_of_mem hc
    obtain ⟨t, ht, hinstant⟩ := List.mem_map.1 hmem
    rw [hlast]
    exact (fits_iff hinstant).1 (hfits t ht)
  · intro hend t ht
    have hmem : t.instant ∈ moments.map fun c => (c.micros : ℤ) := hinstants ▸ List.mem_map_of_mem ht
    obtain ⟨c, hc, hinstant⟩ := List.mem_map.1 hmem
    exact (fits_iff hinstant.symm).2 (Nat.lt_of_le_of_lt (Nat.add_le_add_right (hrange.between c hc).2 _) hend)

/-- Between the least and the greatest bucket, with a zero in the gaps. -/
theorem buildSeries_filled (buckets : Table Clock ℚ) (metric : String) (w : Window) {range : Clock × Clock}
    (hmin : buckets.keys.argmin Clock.micros = some range.1) (hmax : buckets.keys.argmax Clock.micros = some range.2) :
    buildSeries buckets metric w none none true = (Timeutil.iterWindows range.1 range.2 w).map fun windows =>
      { metric := metric, window := w, points := windows.map fun bucket => pointOf bucket ((buckets.get bucket).getD 0) } := by
  rw [buildSeries, hmin, hmax]
  dsimp only
  rw [if_pos rfl]
  rw [utcOr_none, ok_bind, utcOr_none, ok_bind]
  cases Timeutil.iterWindows range.1 range.2 w with
  | error exn => rfl
  | ok windows => rfl

/-- The series of a list of timestamps counts each in its window exactly when `iter_windows` stays
within the calendar. -/
theorem buildSeries_bucketize (w : Window) (metric : String) {timestamps : List Datetime} (hne : timestamps ≠ []) :
    (∃ series, (bucketize timestamps w []).bind (buildSeries · metric w none none true) = .ok series ∧
      Bucketed w timestamps series.points) ↔ ∀ t ∈ timestamps, Fits w t := by
  cases hutc : timestamps.mapM Timeutil.ensureUtc with
  | error exn =>
    -- a timestamp has no reading in UTC
    have hbuckets : bucketize timestamps w [] = .error exn := by rw [bucketize, bucketizeFrom_eq, hutc]; rfl
    refine iff_of_false (by rw [hbuckets]; rintro ⟨_, h, -⟩; cases h) fun hfits => ?_
    obtain ⟨moments, hok⟩ := exists_mapM.2 fun t ht => exists_ensureUtc (hfits t ht)
    rw [hutc] at hok
    cases hok
  | ok moments =>
    have hmoments : moments ≠ [] := by
      rintro rfl
      exact hne (List.map_eq_nil_iff.1 (instants_eq hutc))
    obtain ⟨range, hrange, hmin, hmax⟩ := exists_bounds (w := w) hmoments
    have hbuckets : bucketize timestamps w [] = .ok (tally w [] moments) := by rw [bucketize, bucketizeFrom_eq, hutc]; rfl
    have hseries : (bucketize timestamps w []).bind (buildSeries · metric w none none true) =
        (Timeutil.iterWindows range.1 range.2 w).map fun windows =>
          { metric := metric, window := w,
            points := windows.map fun bucket => pointOf bucket (((tally w [] moments).get bucket).getD 0) } := by
      rw [hbuckets]
      exact buildSeries_filled _ metric w hmin hmax
    obtain ⟨c, hc, hlast⟩ := hrange.last
    obtain ⟨hroom, hover⟩ := @Timeutil.iterWindows_spec w range
      (Nat.le_trans (hrange.between c hc).1 (hrange.between c hc).2)
    rw [hlast, floorToWindow_idem, ← hlast] at hroom hover
    rw [forall_fits_iff hutc hrange, hseries]
    constructor
    · rintro ⟨series, hok, -⟩
      by_contra hend
      obtain ⟨exn, herror⟩ := hover (Nat.not_lt.1 hend)
      rw [herror] at hok
      cases hok
    · intro hend
      obtain ⟨windows, hok, hmicros⟩ := hroom hend
      exact ⟨_, by rw [hok]; rfl, bucketed hutc hrange hmicros⟩

end

/-- A moment of the last day of the calendar. -/
def lastNoon : Datetime := { clock := ⟨endMicros - dayMicros / 2, by decide⟩ }

theorem buildSeries_bucketize_day :
    (∃ series, (bucketize [{ clock := Timeutil.minTimestamp }, { clock := Timeutil.maxTimestamp }] .d1 []).bind
        (buildSeries · "requests" .d1 none none true) = .ok series ∧
      Bucketed .d1 [{ clock := Timeutil.minTimestamp }, { clock := Timeutil.maxTimestamp }] series.points) :=
  (buildSeries_bucketize .d1 "requests" (by decide)).2 (by decide)

/-- After the last day of the calendar the loop asks for another one. -/
theorem lastNoon_not_bucketed :
    ¬∃ series, (bucketize [lastNoon] .d1 []).bind (buildSeries · "requests" .d1 none none true) = .ok series ∧
      Bucketed .d1 [lastNoon] series.points := by
  rintro ⟨series, hok, -⟩
  have hraises : ((bucketize [lastNoon] .d1 []).bind (buildSeries · "requests" .d1 none none true)).toOption.isNone = true := by
    decide
  rw [hok] at hraises
  cases hraises

end Buckets

end LogAnalytics
