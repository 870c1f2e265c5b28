import LogAnalytics.Storage.EventStore
import LogAnalytics.Storage.ReadBack
/-!
# JSONL beside Parquet

`JsonlStore` writes the times of its rows as texts of second precision and compares texts when it
reads; `ParquetStore` compares the times. What the two backends yield for the same events and range.
-/
open LogAnalytics.Lib LogAnalytics.Lib.Calendar

namespace LogAnalytics

/-! ## Second precision -/

/-- `to_iso` of a time in UTC. -/
def isoChars (c : Clock) : List Char :=
  let seconds := c.timeOfDay / 10 ^ 6
  zeroPad 4 (yearOf c.day) ++ '-' :: (zeroPad 2 (monthOf c.day) ++ '-' :: (zeroPad 2 (dayOf c.day) ++ 'T' ::
    (zeroPad 2 (seconds / 3600) ++ ':' :: (zeroPad 2 (seconds / 60 % 60) ++ ':' :: (zeroPad 2 (seconds % 60) ++ ['Z'])))))

def toIso (moment : Datetime) : Except Exn (List Char) := (Timeutil.ensureUtc moment).map isoChars

/-- A field of digits, and what follows the character after it. -/
def readField (width : Nat) (text : List Char) : Nat × List Char :=
  (Nat.ofDigitChars 10 (text.take width) 0, text.drop (width + 1))

/-- The instant such a text denotes. -/
def isoInstant (text : List Char) : Nat :=
  let (year, text) := readField 4 text
  let (month, text) := readField 2 text
  let (day, text) := readField 2 text
  let (hour, text) := readField 2 text
  let (minute, text) := readField 2 text
  let (second, _) := readField 2 text
  (dayNumber year month day * 86400 + hour * 3600 + minute * 60 + second) * 10 ^ 6

theorem readField_zeroPad {k n : Nat} (hk : 0 < k) (hn : n < 10 ^ k) (c : Char) (rest : List Char) :
    readField k (zeroPad k n ++ c :: rest) = (n, rest) := by
  have hlen := length_zeroPad hk hn
  rw [readField, List.take_left' hlen, ofDigitChars_zeroPad, ← List.drop_drop, List.drop_left' hlen]
  rfl

section

variable (c : Clock)

theorem seconds_lt : c.timeOfDay / 10 ^ 6 < 86400 :=
  (Nat.div_lt_iff_lt_mul (by decide)).2 c.timeOfDay_lt

theorem date_lt : yearOf c.day < 10 ^ 4 ∧ monthOf c.day < 10 ^ 2 ∧ dayOf c.day < 10 ^ 2 := by
  have hyear := c.year_le
  have hmonth := monthOf_le c.day
  have hday := dayOf_le c.day
  omega

theorem time_lt : c.timeOfDay / 10 ^ 6 / 3600 < 10 ^ 2 ∧ c.timeOfDay / 10 ^ 6 / 60 % 60 < 10 ^ 2 ∧
    c.timeOfDay / 10 ^ 6 % 60 < 10 ^ 2 := by
  have := seconds_lt c
  omega

/-- The seconds since year 1. -/
theorem seconds_eq : c.micros / 10 ^ 6 = c.day * 86400 + c.timeOfDay / 10 ^ 6 := by
  have hsplit := c.day_timeOfDay
  have hunit : dayMicros = 86400 * 10 ^ 6 := by decide
  rw [← hsplit, hunit, ← Nat.mul_assoc, Nat.mul_comm (c.day * 86400), Nat.mul_add_div (by decide)]

/-- The text denotes the second the time is in. -/
theorem isoInstant_isoChars : isoInstant (isoChars c) = c.micros / 10 ^ 6 * 10 ^ 6 := by
  obtain ⟨hyear, hmonth, hday⟩ := date_lt c
  obtain ⟨hhour, hminute, hsecond⟩ := time_lt c
  simp only [isoInstant, isoChars, readField_zeroPad (by decide) hyear, readField_zeroPad (by decide) hmonth,
    readField_zeroPad (by decide) hday, readField_zeroPad (by decide) hhour, readField_zeroPad (by decide) hminute,
    readField_zeroPad (by decide) hsecond, dayNumber_fields]
  rw [seconds_eq]
  omega

end

/-- The texts are ordered as the seconds. -/
theorem isoChars_lt (a b : Clock) : isoChars a < isoChars b ↔ a.micros / 10 ^ 6 < b.micros / 10 ^ 6 := by
  obtain ⟨hyear, hmonth, hday⟩ := date_lt a
  obtain ⟨hhour, hminute, hsecond⟩ := time_lt a
  obtain ⟨hyear', hmonth', hday'⟩ := date_lt b
  obtain ⟨hhour', hminute', hsecond'⟩ := time_lt b
  have hsep (x : Char) (s t : List Char) : x :: s < x :: t ↔ s < t := by simp
  have hlex := lt_iff_fields a.day b.day
  have heq : a.day = b.day ↔ yearOf a.day = yearOf b.day ∧ monthOf a.day = monthOf b.day ∧ dayOf a.day = dayOf b.day := by
    refine ⟨fun h => by rw [h]; exact ⟨rfl, rfl, rfl⟩, fun ⟨hy, hm, hd⟩ => ?_⟩
    rw [← dayNumber_fields a.day, hy, hm, hd, dayNumber_fields]
  have hend : ¬([] : List Char) < [] := by simp
  simp only [isoChars, hsep, zeroPad_append_lt (by decide) hyear hyear', zeroPad_append_lt (by decide) hmonth hmonth',
    zeroPad_append_lt (by decide) hday hday', zeroPad_append_lt (by decide) hhour hhour',
    zeroPad_append_lt (by decide) hminute hminute', zeroPad_append_lt (by decide) hsecond hsecond', hend, and_false,
    or_false]
  rw [seconds_eq, seconds_eq]
  have ha := seconds_lt a
  have hb := seconds_lt b
  generalize a.timeOfDay / 10 ^ 6 = s at *
  generalize b.timeOfDay / 10 ^ 6 = t at *
  omega

/-! ## Writing and publishing -/

namespace TextStore

section

variable {D E : Type} [DecidableEq D]

/-- `write` in which nothing raises. -/
def write (c : TextConfig D E) (s : TextStore D E) (events : List E) (runId : String) : Except Exn Unit × TextStore D E :=
  match writeEvents c (safeRun c runId) {} { store := s } events with
  | (.error exn, s) => (.error exn, s.store)
  | (.ok (), s) => (.ok (), (finish s).store)

variable {c : TextConfig D E} {events : Multiset E}

theorem writeEvent_ok {s : TextStore D E} (h : Dataset.Writing c.partition id s.files s.handles events)
    {path : PartName D} {event : E} (hpath : c.partition event = path.1) (hfree : s.files.lookup (.final path) = none) :
    ∃ t, writeEvent c none s path event = (.ok (), t) ∧
      Dataset.Writing c.partition id t.files t.handles (events + {event}) ∧
      ∀ w, t.files.lookup (.final w) = s.files.lookup (.final w) := by
  have hput (rows : List E) (hrows : rows = (s.files.lookup (.temp path)).elim [] id ++ [event]) :
      Dataset.Writing c.partition id (s.files.insert (.temp path) rows)
        (if path ∈ s.handles then s.handles else s.handles ++ [path]) (events + [event]) :=
    h.put hfree hrows (List.cons_ne_nil _ _) fun e he => by
      rw [List.mem_singleton.1 he]
      exact hpath
  have hfinals (rows : List E) (w : PartName D) :
      (s.files.insert (.temp path) rows).lookup (.final w) = s.files.lookup (.final w) := AList.lookup_insert_ne (by simp)
  by_cases hopen : path ∈ s.handles
  · obtain ⟨rows, hrows⟩ := Option.isSome_iff_exists.1 ((h.temp path).1 hopen)
    have hstored := hput (rows ++ [event]) (by rw [hrows]; rfl)
    rw [if_pos hopen] at hstored
    -- counting the rows since the last flush to disk leaves the files alone
    have hrun : ∃ t, writeEvent c none s path event = (.ok (), t) ∧
        t.files = s.files.insert (.temp path) (rows ++ [event]) ∧ t.handles = s.handles := by
      simp only [writeEvent, handleFor, if_pos hopen, addRow, hrows]
      cases c.format with
      | csv => exact ⟨_, rfl, rfl, rfl⟩
      | jsonl =>
        dsimp only
        split <;> exact ⟨_, rfl, rfl, rfl⟩
    obtain ⟨t, ht, hfiles, hhandles⟩ := hrun
    exact ⟨t, ht, by rw [hfiles, hhandles]; exact hstored, fun w => by rw [hfiles]; exact hfinals _ w⟩
  · have hnone : s.files.lookup (.temp path) = none := by
      by_contra hsome
      exact hopen ((h.temp path).2 (Option.isSome_iff_ne_none.2 hsome))
    have hstored := hput ([] ++ [event]) (by rw [hnone]; rfl)
    rw [if_neg hopen] at hstored
    have hrun : ∃ t, writeEvent c none s path event = (.ok (), t) ∧
        t.files = s.files.insert (.temp path) ([] ++ [event]) ∧ t.handles = s.handles ++ [path] := by
      simp only [writeEvent, handleFor, if_neg hopen, addRow, AList.lookup_insert, AList.insert_insert]
      cases c.format with
      | csv => exact ⟨_, rfl, rfl, rfl⟩
      | jsonl =>
        dsimp only
        split <;> exact ⟨_, rfl, rfl, rfl⟩
    obtain ⟨t, ht, hfiles, hhandles⟩ := hrun
    exact ⟨t, ht, by rw [hfiles, hhandles]; exact hstored, fun w => by rw [hfiles]; exact hfinals _ w⟩

theorem writeEvents_ok (run : String) (xs : List E) : ∀ {s : TextWrite D E} {events : Multiset E},
    Dataset.Writing c.partition id s.store.files s.store.handles events →
    (∀ w, s.store.files.lookup (.final w) = none) →
    ∃ t, writeEvents c run {} s xs = (.ok (), t) ∧
      Dataset.Writing c.partition id t.store.files t.store.handles (events + xs) := by
  induction xs with
  | nil => exact fun h _ => ⟨_, rfl, by simpa using h⟩
  | cons x xs ih =>
    intro s events h hfree
    obtain ⟨t, hwrite, ht, hfinals⟩ := writeEvent_ok h (show c.partition x = (c.partition x, run).1 from rfl) (hfree _)
    obtain ⟨t', hrest, ht'⟩ := ih
      (s := ⟨t, if (c.partition x, run) ∈ s.touched then s.touched else s.touched ++ [(c.partition x, run)]⟩) ht
      fun w => (hfinals w).trans (hfree w)
    refine ⟨t', ?_, by rwa [← Multiset.cons_coe, ← Multiset.singleton_add, ← add_assoc]⟩
    rw [writeEvents]
    simp only [hwrite, hrest]

theorem flushHandles_ok {partition : E → D} (ws : List (PartName D)) : ∀ {files : Files (DataPath D) (List E)} (k : Nat),
    Dataset.Writing partition id files ws events →
    ∃ files', flushHandles {} k files ws [] = (.ok [], files', []) ∧ Dataset.Writing partition id files' [] events := by
  induction ws with
  | nil => exact fun k h => ⟨_, rfl, h⟩
  | cons path ws ih =>
    intro files k h
    obtain ⟨rows, hrows⟩ := Option.isSome_iff_exists.1 ((h.temp path).1 List.mem_cons_self)
    have hfree := h.free path List.mem_cons_self
    have hfinalise : finalise none files path = (.ok (), files.rename (.temp path) (.final path)) := by
      simp [finalise, hrows, hfree, replace]
    obtain ⟨files', hrest, hwriting⟩ := ih (k + 1) h.publish
    refine ⟨files', ?_, hwriting⟩
    rw [flushHandles]
    simp only [hfinalise, hrest]

/-- A `write` into an empty dataset and a `flush` publish the events. -/
theorem write_flush_ok (c : TextConfig D E) (xs : List E) (runId : String) :
    ∃ s t, write c { files := ∅ } xs runId = (.ok (), s) ∧ flush {} s = (.ok (), t) ∧
      Dataset.Writing c.partition id t.files [] xs := by
  obtain ⟨s, hwrite, hs⟩ := writeEvents_ok (c := c) (safeRun c runId) xs (s := { store := { files := ∅ } })
    (Dataset.Writing.start : Dataset.Writing c.partition id ∅ [] 0) fun w => by simp
  rw [zero_add] at hs
  obtain ⟨files, hflush, hfiles⟩ := flushHandles_ok s.store.handles 0 hs
  refine ⟨(finish s).store, { (finish s).store with files := files, handles := [], sinceFlush := 0 }, ?_, ?_, hfiles⟩
  · rw [write, hwrite]
  · unfold flush
    simp only [finish, hflush]
    rfl

end

/-! ## Reading -/

end TextStore

/-- `to_api_dict`: the columns of the event, with the times as texts. -/
structure ApiRow where
  event : LogEvent
  timestamp : List Char
  ingestedAt : List Char

def LogEvent.toApiDict (e : LogEvent) : ApiRow := ⟨e, isoChars e.timestamp, isoChars e.ingestedAt⟩

/-- The second of the time lies between the seconds of the bounds. -/
def inSeconds (start stop : Option Moment) (t : Clock) : Bool :=
  start.all (fun m => m.instant / 10 ^ 6 ≤ ((t.micros / 10 ^ 6 : Nat) : Int)) &&
    stop.all fun m => ((t.micros / 10 ^ 6 : Nat) : Int) ≤ m.instant / 10 ^ 6

theorem inSeconds_of_inRange {start stop : Option Moment} {t : Clock} (h : inRange start stop t = true) :
    inSeconds start stop t = true := by
  simp only [inRange, inSeconds, Bool.and_eq_true, Option.all_eq_true, decide_eq_true_eq] at h ⊢
  refine ⟨fun m hm => ?_, fun m hm => ?_⟩
  · have := h.1 m hm
    omega
  · have := h.2 m hm
    omega

namespace TextStore

/-- `JsonlStore.read`; the bounds are rendered beforehand, as `paths` has converted them by then. -/
def read (u : Unicode) (root : Path) (s : TextStore Path LogEvent) (start stop : Option Moment) (limit : Option Int) :
    Except Exn (List ApiRow) := do
  let parts ← Dataset.paths u "jsonl" s.files root (start.map Moment.datetime) (stop.map Moment.datetime)
  let first ← (start.map Moment.datetime).mapM toIso
  let last ← (stop.map Moment.datetime).mapM toIso
  return yieldRows (fun row => first.any (row.timestamp < ·) || last.any (· < row.timestamp)) limit 0
    ((parts.flatMap (Dataset.rowsOf id s.files)).map LogEvent.toApiDict)

/-- A bound renders to the text of its second. -/
theorem toIso_bound {bound : Option Moment}
    (h : ∀ d ∈ bound.map Moment.datetime, ∃ utc, Timeutil.ensureUtc d = .ok utc) :
    ∃ text : Option (List Char), (bound.map Moment.datetime).mapM toIso = .ok text ∧ ∀ t : Clock,
      text.any (isoChars t < ·) = bound.any (fun m => ((t.micros / 10 ^ 6 : Nat) : Int) < m.instant / 10 ^ 6) ∧
      text.any (· < isoChars t) = bound.any (fun m => m.instant / 10 ^ 6 < ((t.micros / 10 ^ 6 : Nat) : Int)) := by
  cases bound with
  | none => exact ⟨none, rfl, fun t => ⟨rfl, rfl⟩⟩
  | some m =>
    obtain ⟨utc, hutc⟩ := h m.datetime rfl
    have hinstant : m.instant = utc.micros := Timeutil.ensureUtc_ok.1 hutc
    refine ⟨some (isoChars utc), ?_, fun t => ?_⟩
    · have hiso : toIso m.datetime = .ok (isoChars utc) := by rw [toIso, hutc]; rfl
      simp only [Option.map_some, Option.mapM_some, hiso]
      rfl
    · simp only [Option.any_some, isoChars_lt, hinstant]
      constructor
      all_goals
        rw [decide_eq_decide]
        omega

/-- Without a limit `read` is the rows of the listed files whose seconds lie in the range. -/
theorem read_all {u : Unicode} {root : Path} {s : TextStore Path LogEvent} {start stop : Option Moment} {rows : List ApiRow} :
    read u root s start stop none = .ok rows ↔
      ∃ parts, Dataset.paths u "jsonl" s.files root (start.map Moment.datetime) (stop.map Moment.datetime) = .ok parts ∧
        ((parts.flatMap (Dataset.rowsOf id s.files)).filter fun e => inSeconds start stop e.timestamp).map
          LogEvent.toApiDict = rows := by
  rw [read, bind_ok]
  refine exists_congr fun parts => and_congr_right fun hparts => ?_
  obtain ⟨dirs, hdirs, -⟩ := bind_ok.1 hparts
  have hprunable := Partitioning.exists_prunePartitions.1 ⟨dirs, hdirs⟩
  obtain ⟨first, hfirst, hbelow⟩ := toIso_bound hprunable.start_utc
  obtain ⟨last, hlast, habove⟩ := toIso_bound hprunable.stop_utc
  have hskip (e : LogEvent) : (!(first.any (isoChars e.timestamp < ·) || last.any (· < isoChars e.timestamp))) =
      inSeconds start stop e.timestamp := by
    rw [(hbelow _).1, (habove _).2, Bool.eq_iff_iff]
    cases start <;> cases stop <;> simp [inSeconds]
  have hrows : yieldRows (fun row : ApiRow => first.any (row.timestamp < ·) || last.any (· < row.timestamp)) none 0
      ((parts.flatMap (Dataset.rowsOf id s.files)).map LogEvent.toApiDict) =
        ((parts.flatMap (Dataset.rowsOf id s.files)).filter fun e => inSeconds start stop e.timestamp).map
          LogEvent.toApiDict := by
    rw [yieldRows_none, List.filter_map]
    exact congrArg _ (List.filter_congr fun e _ => hskip e)
  simp only [hfirst, hlast, bind, Except.bind, pure, Except.pure, hrows, Except.ok.injEq]

end TextStore

/-! ## The two backends -/

/-- Rows shown with a coarser value, and selected by a coarser test, are the same rows exactly when the
coarser test selects no others and none of them loses anything. -/
theorem perm_coarse_iff {α β γ : Type} {narrow coarse : α → Bool} (hsub : ∀ x, narrow x = true → coarse x = true)
    (key : α → β) (value : α → γ) (lower : γ → γ) (hlower : ∀ v, lower (lower v) = lower v) (xs : List α) :
    ((xs.filter narrow).map fun x => (key x, value x)).Perm
        ((xs.filter coarse).map fun x => (key x, lower (value x))) ↔
      ∀ x ∈ xs, coarse x = true → lower (value x) = value x ∧ narrow x = true := by
  constructor
  · intro hperm
    -- the narrow selection is a part of the coarse one, of the same length
    have hpart : (xs.filter coarse).filter narrow = xs.filter narrow := by
      rw [List.filter_filter]
      refine List.filter_congr fun x _ => ?_
      rw [Bool.eq_iff_iff, Bool.and_eq_true]
      exact and_iff_left_of_imp (hsub x)
    have hlength : (xs.filter narrow).length = (xs.filter coarse).length := by simpa using hperm.length_eq
    have hsame : xs.filter narrow = xs.filter coarse := by
      rw [← hpart]
      refine List.filter_sublist.eq_of_length ?_
      rw [hpart, hlength]
    intro x hx hcoarse
    have hmem : x ∈ xs.filter narrow := hsame ▸ List.mem_filter.2 ⟨hx, hcoarse⟩
    refine ⟨?_, (List.mem_filter.1 hmem).2⟩
    obtain ⟨y, -, hy⟩ := List.mem_map.1 (hperm.subset (List.mem_map_of_mem hmem))
    obtain ⟨-, hvalue⟩ := Prod.mk.inj hy
    rw [← hvalue, hlower]
  · intro h
    have hsame : xs.filter narrow = xs.filter coarse :=
      List.filter_congr fun x hx => Bool.eq_iff_iff.2 ⟨hsub x, fun hcoarse => (h x hx hcoarse).2⟩
    rw [hsame]
    refine List.Perm.of_eq (List.map_congr_left fun x hx => ?_)
    obtain ⟨hx, hcoarse⟩ := List.mem_filter.1 hx
    rw [(h x hx hcoarse).1]

namespace JsonlStore

def parquetConfig (u : Unicode) (root : Path) (keys : List PartitionKey) (batchSize : Nat) :
    ParquetConfig Path LogEvent where
  unicode := u
  batchSize := batchSize
  partition := fun e => Dataset.directory root keys e.timestamp

def jsonlConfig (u : Unicode) (root : Path) (keys : List PartitionKey) (flushEvery : Nat) : TextConfig Path LogEvent where
  unicode := u
  format := .jsonl
  partition := fun e => Dataset.directory root keys e.timestamp
  flushEvery := flushEvery

/-- Both read the range; the rows have the same ids, at the same instants. -/
def SameRows (u : Unicode) (root : Path) (p : ParquetStore Path LogEvent) (t : TextStore Path LogEvent)
    (start stop : Option Moment) : Prop :=
  ∃ rows rows', ParquetStore.read u root LogEvent.timestamp p start stop none = .ok rows ∧
    TextStore.read u root t start stop none = .ok rows' ∧
    (rows.map fun e => (e.eventId, e.timestamp.micros)).Perm
      (rows'.map fun row => (row.event.eventId, isoInstant row.timestamp))

/-- Both write and flush the events, and then read the same. -/
def Agree (u : Unicode) (root : Path) (keys : List PartitionKey) (batchSize flushEvery : Nat) (events : List LogEvent)
    (runId : String) (start stop : Option Moment) : Prop :=
  ∃ touched p p' t t',
    ParquetStore.write (parquetConfig u root keys batchSize) {} { files := ∅ } events runId = (.ok touched, p) ∧
    ParquetStore.flush {} p = (.ok (), p') ∧
    TextStore.write (jsonlConfig u root keys flushEvery) { files := ∅ } events runId = (.ok (), t) ∧
    TextStore.flush {} t = (.ok (), t') ∧ SameRows u root p' t' start stop

/-- Listing files raises nowhere, and a time in a listed directory that is in the range by the second is a
whole second in the range. -/
structure Exact (u : Unicode) (root : Path) (keys : List PartitionKey) (events : List LogEvent)
    (start stop : Option Moment) : Prop where
  start_utc : ∀ m ∈ start, 0 ≤ m.instant ∧ m.instant < endMicros
  stop_utc : ∀ m ∈ stop, 0 ≤ m.instant ∧ m.instant < endMicros
  readable : Partitioning.Listed u root keys → Dataset.Readable u
    (fun e : LogEvent => Dataset.directory root keys e.timestamp) events (start.map Moment.datetime)
    (stop.map Moment.datetime)
  whole : Partitioning.Listed u root keys → ∀ e ∈ events,
    Dataset.Kept u (start.map Moment.datetime) (stop.map Moment.datetime) (Dataset.directory root keys e.timestamp) →
      inSeconds start stop e.timestamp = true →
        e.timestamp.micros % 10 ^ 6 = 0 ∧ inRange start stop e.timestamp = true

/-- What the two list is the same. -/
theorem listed_perm {u : Unicode} (hu : u.Lawful) {root : Path} {keys : List PartitionKey}
    (hlisted : Partitioning.Listed u root keys) {C C' : Type} {rows : C → List LogEvent} {rows' : C' → List LogEvent} {files : Files (DataPath Path) C}
    {files' : Files (DataPath Path) C'} {events : List LogEvent} {start stop : Option Datetime}
    (h : Dataset.Holds (fun e => Dataset.directory root keys e.timestamp) rows files events)
    (h' : Dataset.Holds (fun e => Dataset.directory root keys e.timestamp) rows' files' events) {ext ext' : String}
    {parts parts' : List (PartName Path)} (hp : Dataset.paths u ext files root start stop = .ok parts)
    (hp' : Dataset.paths u ext' files' root start stop = .ok parts') :
    (parts.flatMap (Dataset.rowsOf rows files)).Perm (parts'.flatMap (Dataset.rowsOf rows' files')) ∧
      ∀ e, e ∈ parts.flatMap (Dataset.rowsOf rows files) ↔
        e ∈ events ∧ Dataset.Kept u start stop (Dataset.directory root keys e.timestamp) := by
  obtain ⟨dirs, hrows, hkept⟩ := h.paths_spec hu hlisted hp
  obtain ⟨dirs', hrows', hkept'⟩ := h'.paths_spec hu hlisted hp'
  refine ⟨?_, fun e => ?_⟩
  · rw [← Multiset.coe_eq_coe, hrows, hrows']
    exact Multiset.filter_congr fun e he => (hkept e he).trans (hkept' e he).symm
  · rw [← Multiset.mem_coe, hrows, Multiset.mem_filter]
    exact and_congr_right (hkept e)

theorem lower_second (v : Nat) : v / 10 ^ 6 * 10 ^ 6 / 10 ^ 6 * 10 ^ 6 = v / 10 ^ 6 * 10 ^ 6 := by
  omega

/-- The files of both after `write` and `flush`. -/
theorem written (u : Unicode) (root : Path) (keys : List PartitionKey) (batchSize flushEvery : Nat)
    (events : List LogEvent) (runId : String) :
    ∃ touched p p' t t',
      ParquetStore.write (parquetConfig u root keys batchSize) {} { files := ∅ } events runId = (.ok touched, p) ∧
      ParquetStore.flush {} p = (.ok (), p') ∧
      TextStore.write (jsonlConfig u root keys flushEvery) { files := ∅ } events runId = (.ok (), t) ∧
      TextStore.flush {} t = (.ok (), t') ∧
      Dataset.Holds (fun e => Dataset.directory root keys e.timestamp) ParquetStore.readRows p'.files events ∧
      Dataset.Holds (fun e => Dataset.directory root keys e.timestamp) id t'.files events := by
  have hstart : ParquetStore.Collecting (parquetConfig u root keys batchSize) { files := ∅ } [] [] 0 :=
    .start
  obtain ⟨touched, p, hwrite, hp, -⟩ := hstart.write
    (show ParquetStore.safeRun (parquetConfig u root keys batchSize) runId ∉ [] from List.not_mem_nil) events
  obtain ⟨p', hflush, hp', hwriters, -⟩ := hp.flush
  obtain ⟨t, t', hwrite', hflush', ht'⟩ := TextStore.write_flush_ok (jsonlConfig u root keys flushEvery) events runId
  have hwriting := hp'.writing
  rw [hwriters, zero_add] at hwriting
  exact ⟨touched, p, p', t, t', hwrite, hflush, hwrite', hflush',
    hwriting.holds fun w f hf => if_pos (hp'.complete w f hf), ht'.holds fun _ _ _ => rfl⟩

section

variable {u : Unicode} (hu : u.Lawful) {root : Path} {keys : List PartitionKey} {p : ParquetStore Path LogEvent}
  {t : TextStore Path LogEvent} {events : List LogEvent}
  (hp : Dataset.Holds (fun e => Dataset.directory root keys e.timestamp) ParquetStore.readRows p.files events)
  (ht : Dataset.Holds (fun e => Dataset.directory root keys e.timestamp) id t.files events) {start stop : Option Moment}

include hu hp ht

/-- Once the files are listed, the rows are the same when the seconds lose nothing. -/
theorem rows_perm_iff (hlisted : Partitioning.Listed u root keys) {parts parts' : List (PartName Path)}
    (hparts : Dataset.paths u "parquet" p.files root (start.map Moment.datetime) (stop.map Moment.datetime) = .ok parts)
    (hparts' : Dataset.paths u "jsonl" t.files root (start.map Moment.datetime) (stop.map Moment.datetime) = .ok parts') :
    (((parts.flatMap (Dataset.rowsOf ParquetStore.readRows p.files)).filter fun e =>
        inRange start stop e.timestamp).map fun e => (e.eventId, e.timestamp.micros)).Perm
      ((((parts'.flatMap (Dataset.rowsOf id t.files)).filter fun e => inSeconds start stop e.timestamp).map
        LogEvent.toApiDict).map fun row => (row.event.eventId, isoInstant row.timestamp)) ↔
    ∀ e ∈ events, Dataset.Kept u (start.map Moment.datetime) (stop.map Moment.datetime)
        (Dataset.directory root keys e.timestamp) → inSeconds start stop e.timestamp = true →
      e.timestamp.micros % 10 ^ 6 = 0 ∧ inRange start stop e.timestamp = true := by
  obtain ⟨hperm, hmem⟩ := listed_perm hu hlisted hp ht hparts hparts'
  have hshown (rows : List LogEvent) : (rows.map LogEvent.toApiDict).map (fun row =>
      (row.event.eventId, isoInstant row.timestamp)) =
        rows.map fun e => (e.eventId, e.timestamp.micros / 10 ^ 6 * 10 ^ 6) := by
    rw [List.map_map]
    refine List.map_congr_left fun e _ => ?_
    simp only [Function.comp, LogEvent.toApiDict, isoInstant_isoChars]
  have hsub (e : LogEvent) : inRange start stop e.timestamp = true → inSeconds start stop e.timestamp = true :=
    inSeconds_of_inRange
  have hiff := perm_coarse_iff hsub LogEvent.eventId (fun e => e.timestamp.micros)
    (fun v => v / 10 ^ 6 * 10 ^ 6) lower_second (parts.flatMap (Dataset.rowsOf ParquetStore.readRows p.files))
  rw [hshown, ← ((hperm.filter _).map _).congr_right, hiff]
  simp only [hmem, and_imp]
  refine forall₄_congr fun e _ _ _ => and_congr_left fun _ => ?_
  omega

theorem sameRows_listed (hlisted : Partitioning.Listed u root keys) : SameRows u root p t start stop ↔
    Dataset.Readable u (fun e : LogEvent => Dataset.directory root keys e.timestamp) events (start.map Moment.datetime)
        (stop.map Moment.datetime) ∧
      ∀ e ∈ events, Dataset.Kept u (start.map Moment.datetime) (stop.map Moment.datetime)
          (Dataset.directory root keys e.timestamp) → inSeconds start stop e.timestamp = true →
        e.timestamp.micros % 10 ^ 6 = 0 ∧ inRange start stop e.timestamp = true := by
  constructor
  · rintro ⟨rows, rows', hread, hread', hperm⟩
    obtain ⟨parts, hparts, rfl⟩ := ParquetStore.read_all.1 hread
    obtain ⟨parts', hparts', rfl⟩ := TextStore.read_all.1 hread'
    exact ⟨(hp.exists_paths hu hlisted "parquet").1 ⟨parts, hparts⟩,
      (rows_perm_iff hu hp ht hlisted hparts hparts').1 hperm⟩
  · rintro ⟨hreadable, hwhole⟩
    obtain ⟨parts, hparts⟩ := (hp.exists_paths hu hlisted "parquet").2 hreadable
    obtain ⟨parts', hparts'⟩ := (ht.exists_paths hu hlisted "jsonl").2 hreadable
    exact ⟨_, _, ParquetStore.read_all.2 ⟨parts, hparts, rfl⟩, TextStore.read_all.2 ⟨parts', hparts', rfl⟩,
      (rows_perm_iff hu hp ht hlisted hparts hparts').2 hwhole⟩

/-- Rows in directories that are not looked for are read by neither. -/
theorem sameRows_unlisted (hunlisted : ¬Partitioning.Listed u root keys) : SameRows u root p t start stop ↔
    (∀ m ∈ start, 0 ≤ m.instant ∧ m.instant < endMicros) ∧ ∀ m ∈ stop, 0 ≤ m.instant ∧ m.instant < endMicros := by
  rw [← ParquetStore.exists_utc, ← ParquetStore.exists_utc]
  constructor
  · rintro ⟨rows, rows', hread, -, -⟩
    obtain ⟨parts, hparts, -⟩ := ParquetStore.read_all.1 hread
    exact ((hp.paths_unlisted hu hunlisted "parquet").1 hparts).1
  · intro hbounds
    exact ⟨_, _, ParquetStore.read_all.2 ⟨[], (hp.paths_unlisted hu hunlisted "parquet").2 ⟨hbounds, rfl⟩, rfl⟩,
      TextStore.read_all.2 ⟨[], (ht.paths_unlisted hu hunlisted "jsonl").2 ⟨hbounds, rfl⟩, rfl⟩, .nil⟩

theorem sameRows_iff : SameRows u root p t start stop ↔ Exact u root keys events start stop := by
  by_cases hlisted : Partitioning.Listed u root keys
  · rw [sameRows_listed hu hp ht hlisted]
    constructor
    · rintro ⟨hreadable, hwhole⟩
      exact ⟨ParquetStore.exists_utc.1 hreadable.start_utc, ParquetStore.exists_utc.1 hreadable.stop_utc,
        fun _ => hreadable, fun _ => hwhole⟩
    · exact fun h => ⟨h.readable hlisted, h.whole hlisted⟩
  · rw [sameRows_unlisted hu hp ht hlisted]
    exact ⟨fun ⟨hstart, hstop⟩ => ⟨hstart, hstop, fun h => absurd h hlisted, fun h => absurd h hlisted⟩,
      fun h => ⟨h.start_utc, h.stop_utc⟩⟩

end

theorem agree_iff_exact {u : Unicode} (hu : u.Lawful) (root : Path) (keys : List PartitionKey) (batchSize flushEvery : Nat)
    (events : List LogEvent) (runId : String) (start stop : Option Moment) :
    Agree u root keys batchSize flushEvery events runId start stop ↔ Exact u root keys events start stop := by
  obtain ⟨touched, p, p', t, t', hwrite, hflush, hwrite', hflush', hp, ht⟩ :=
    written u root keys batchSize flushEvery events runId
  rw [← sameRows_iff hu hp ht]
  constructor
  · rintro ⟨_, _, _, _, _, hw, hf, hw', hf', hsame⟩
    rw [hwrite] at hw
    cases hw
    rw [hflush] at hf
    cases hf
    rw [hwrite'] at hw'
    cases hw'
    rw [hflush'] at hf'
    cases hf'
    exact hsame
  · exact fun hsame => ⟨touched, p, p', t, t', hwrite, hflush, hwrite', hflush', hsame⟩

/-! ## The default layout -/

/-- A time in the range by the second is on a day that meets the range. -/
theorem kept_of_inSeconds {u : Unicode} (hu : u.Lawful) {root : Path}
    (hroot : Partitioning.parsePartition u root .hour = none) {e : LogEvent} {start stop : Option Moment}
    (hday : ¬(start = none ∧ stop = none) → e.timestamp.day + 1 < daysBeforeYear 10000)
    (hin : inSeconds start stop e.timestamp = true) :
    Dataset.Kept u (start.map Moment.datetime) (stop.map Moment.datetime) (ParquetStore.eventDirectory root e) := by
  have hseconds := seconds_eq e.timestamp
  have htod := seconds_lt e.timestamp
  have hunit : dayMicros = 86400 * 10 ^ 6 := by decide
  simp only [inSeconds, Bool.and_eq_true, Option.all_eq_true, decide_eq_true_eq] at hin
  refine ParquetStore.kept_of_day hu hroot hday (fun m hm => ?_) fun m hm => ?_
  · have := hin.1 m hm
    rw [hunit]
    omega
  · have := hin.2 m hm
    rw [hunit]
    omega

theorem exact_iff {u : Unicode} (hu : u.Lawful) {root : Path} (hroot : Partitioning.parsePartition u root .hour = none)
    (events : List LogEvent) (start stop : Option Moment) :
    Exact u root ParquetStore.defaultPartitionKeys events start stop ↔
      (∀ m ∈ start, 0 ≤ m.instant ∧ m.instant < endMicros) ∧ (∀ m ∈ stop, 0 ≤ m.instant ∧ m.instant < endMicros) ∧
        (¬(start = none ∧ stop = none) → ∀ e ∈ events, e.timestamp.day + 1 < daysBeforeYear 10000) ∧
        ∀ e ∈ events, inSeconds start stop e.timestamp = true →
          e.timestamp.micros % 10 ^ 6 = 0 ∧ inRange start stop e.timestamp = true := by
  have hlisted : Partitioning.Listed u root ParquetStore.defaultPartitionKeys := .inl (by decide)
  have hreadable := ParquetStore.readable_iff hu hroot events start stop
  constructor
  · intro h
    obtain ⟨hstart, hstop, hdays⟩ := hreadable.1 (h.readable hlisted)
    refine ⟨hstart, hstop, hdays, fun e he hin => h.whole hlisted e he ?_ hin⟩
    exact kept_of_inSeconds hu hroot (fun hb => hdays hb e he) hin
  · rintro ⟨hstart, hstop, hdays, hwhole⟩
    exact ⟨hstart, hstop, fun _ => hreadable.2 ⟨hstart, hstop, hdays⟩, fun _ e he _ hin => hwhole e he hin⟩

/-- The backends agree on a range exactly when listing the files raises nowhere and, of the times listed, those
in the range by the second are whole seconds in the range. Under the default keys, below a root that says no
hour: when the bounds have a UTC time, no event is on the calendar's last day if there is a bound, and every
event in the range by the second is at a whole second in the range. -/
theorem stores_agree {u : Unicode} (hu : u.Lawful) (root : Path) (batchSize flushEvery : Nat) (events : List LogEvent)
    (runId : String) (start stop : Option Moment) :
    (∀ keys, Agree u root keys batchSize flushEvery events runId start stop ↔ Exact u root keys events start stop) ∧
    (Partitioning.parsePartition u root .hour = none →
      (Agree u root ParquetStore.defaultPartitionKeys batchSize flushEvery events runId start stop ↔
        (∀ m ∈ start, 0 ≤ m.instant ∧ m.instant < endMicros) ∧ (∀ m ∈ stop, 0 ≤ m.instant ∧ m.instant < endMicros) ∧
          (¬(start = none ∧ stop = none) → ∀ e ∈ events, e.timestamp.day + 1 < daysBeforeYear 10000) ∧
          ∀ e ∈ events, inSeconds start stop e.timestamp = true →
            e.timestamp.micros % 10 ^ 6 = 0 ∧ inRange start stop e.timestamp = true)) :=
  ⟨fun keys => agree_iff_exact hu root keys batchSize flushEvery events runId start stop, fun hroot =>
    (agree_iff_exact hu root _ batchSize flushEvery events runId start stop).trans (exact_iff hu hroot events start stop)⟩

/-- Two events at whole seconds, read from 1970 on. -/
theorem stores_agree_two_events : Agree asciiUnicode ["/", "data"] ParquetStore.defaultPartitionKeys 50000 1000
    [requestEvent 1, requestEvent 2] "adhoc" (some ParquetStore.epoch) none := by
  refine ((stores_agree asciiUnicode_lawful ["/", "data"] 50000 1000 _ "adhoc" _ none).2 (by decide)).2
    ⟨?_, by simp, fun _ e he => ?_, fun e he _ => ?_⟩
  · rintro m ⟨⟩
    decide
  all_goals
    have htime : e.timestamp = Timeutil.minTimestamp := by
      rcases List.mem_pair.1 he with rfl | rfl <;> rfl
    rw [htime]
    decide

/-- An event half a second after the start of 1990. -/
def halfSecond : LogEvent :=
  { requestEvent 1 with timestamp := ⟨Timeutil.minTimestamp.micros + 500000, by decide⟩ }

/-- A bound later in the same second. -/
def sameSecond : Moment := { clock := ⟨Timeutil.minTimestamp.micros + 700000, by decide⟩, offset := 0 }

/-- Read from that bound on, the event is not in the range; JSONL yields it. -/
theorem half_second_disagrees : ¬ ∀ (u : Unicode), u.Lawful → ∀ (root : Path) (batchSize flushEvery : Nat)
    (events : List LogEvent) (runId : String) (start stop : Option Moment),
    Agree u root ParquetStore.defaultPartitionKeys batchSize flushEvery events runId start stop := by
  intro h
  have hagree := h asciiUnicode asciiUnicode_lawful ["/", "data"] 50000 1000 [halfSecond] "adhoc" (some sameSecond) none
  rw [agree_iff_exact asciiUnicode_lawful, exact_iff asciiUnicode_lawful (by decide)] at hagree
  have hwhole := hagree.2.2.2 halfSecond List.mem_cons_self (by decide)
  exact absurd hwhole.2 (by decide)

end JsonlStore

end LogAnalytics
