import LogAnalytics.Models.LogEvent
import LogAnalytics.Storage.Dataset
import LogAnalytics.Storage.Schema
/-!
# Reading back what was written

`ParquetStore.read`, and what it yields after any calls of `write` and `flush` in which nothing raises.
A row is kept as the event `to_row` made it from.
-/
open LogAnalytics.Lib

namespace LogAnalytics

/-- A call on a store. -/
inductive StoreCall (E : Type) where
  | write (events : List E) (runId : String)
  | flush

/-- The events the calls write. -/
def StoreCall.events {E : Type} : StoreCall E → List E
  | .write events _ => events
  | .flush => []

/-- A datetime with an offset, as they all are in the platform: a row's time cannot be compared with
another. -/
structure Moment where
  clock : Clock
  offset : Int

namespace Moment

def datetime (m : Moment) : Datetime := { clock := m.clock, offset := some m.offset }

def instant (m : Moment) : Int := m.datetime.instant

end Moment

/-- The time lies in `[start, end]`. -/
def inRange (start stop : Option Moment) (t : Clock) : Bool :=
  start.all (fun m => m.instant ≤ (t.micros : Int)) && stop.all fun m => (t.micros : Int) ≤ m.instant

/-- The loop of `read` over the rows. -/
def yieldRows {E : Type} (skip : E → Bool) (limit : Option Int) : Nat → List E → List E
  | _, [] => []
  | yielded, row :: rows =>
    if skip row then yieldRows skip limit yielded rows
    else if limit.any (fun n => n ≤ (yielded : Int) + 1) then [row]
    else row :: yieldRows skip limit (yielded + 1) rows

theorem yieldRows_none {E : Type} (skip : E → Bool) (rows : List E) : ∀ yielded,
    yieldRows skip none yielded rows = rows.filter (!skip ·) := by
  induction rows with
  | nil => exact fun _ => rfl
  | cons row rows ih =>
    intro yielded
    rw [yieldRows]
    by_cases hskip : skip row = true
    · rw [if_pos hskip, ih, List.filter_cons_of_neg (by simp [hskip])]
    · rw [if_neg hskip, if_neg (by simp), ih, List.filter_cons_of_pos (by simpa using hskip)]

namespace ParquetStore

section

variable {D E : Type} [DecidableEq D] (c : ParquetConfig D E)

def perform (s : ParquetStore D E) : StoreCall E → Except Exn Unit × ParquetStore D E
  | .write events runId =>
    let (r, s) := write c {} s events runId
    (r.map fun _ => (), s)
  | .flush => flush {} s

/-- The calls one after the other, up to the first that raises. -/
def performAll : ParquetStore D E → List (StoreCall E) → Except Exn Unit × ParquetStore D E
  | s, [] => (.ok (), s)
  | s, call :: calls =>
    match perform c s call with
    | (.error exn, s) => (.error exn, s)
    | (.ok (), s) => performAll s calls

/-- No run id is used again after a flush; `flushed` are those used before the last one, `current`
those used since. -/
def NoReuse : List String → List String → List (StoreCall E) → Prop
  | _, _, [] => True
  | flushed, current, .write _ runId :: calls =>
    safeRun c runId ∉ flushed ∧ NoReuse flushed (current ++ [safeRun c runId]) calls
  | flushed, current, .flush :: calls => NoReuse (flushed ++ current) [] calls

/-- The store between two calls: the rows are those of `events`. -/
structure Collecting (s : ParquetStore D E) (flushed current : List String) (events : Multiset E) : Prop where
  writing : Dataset.Writing c.partition ParquetFile.rows s.files s.writers events
  complete : ∀ w f, s.files.lookup (.final w) = some f → f.complete = true
  flushed : ∀ w, (s.files.lookup (.final w)).isSome → w.2 ∈ flushed
  current : ∀ w ∈ s.writers, w.2 ∈ current

variable {c} {s : ParquetStore D E} {flushed current : List String} {events : Multiset E}

theorem Collecting.start : Collecting c { files := ∅ } [] [] 0 :=
  ⟨.start, fun w f hf => by simp at hf, fun w hw => by simp at hw, fun w hw => absurd hw List.not_mem_nil⟩

theorem Collecting.mono (h : Collecting c s flushed current events) {current' : List String} (hsub : current ⊆ current') :
    Collecting c s flushed current' events :=
  ⟨h.writing, h.complete, h.flushed, fun w hw => hsub (h.current w hw)⟩

theorem Collecting.append (h : Collecting c s flushed current events) {path : PartName D} (hfresh : path.2 ∉ flushed)
    (hrun : path.2 ∈ current) {xs : List E} (hxs : xs ≠ []) (hplaced : ∀ e ∈ xs, c.partition e = path.1) :
    ∃ t, append none s path xs = (.ok (), t) ∧ Collecting c t flushed current (events + xs) ∧
      t.recordsWritten = s.recordsWritten := by
  have hfree : s.files.lookup (.final path) = none := by
    by_contra hsome
    exact hfresh (h.flushed path (Option.isSome_iff_ne_none.2 hsome))
  have hdone {f : ParquetFile E} (hrows : f.rows = (s.files.lookup (.temp path)).elim [] ParquetFile.rows ++ xs) :
      Collecting c { s with
        writers := if path ∈ s.writers then s.writers else s.writers ++ [path]
        files := s.files.insert (.temp path) f } flushed current (events + xs) := by
    refine ⟨h.writing.put hfree hrows hxs hplaced, fun w g hg => ?_, fun w hw => ?_, fun w hw => ?_⟩
    · rw [AList.lookup_insert_ne (by simp)] at hg
      exact h.complete w g hg
    · rw [AList.lookup_insert_ne (by simp)] at hw
      exact h.flushed w hw
    · dsimp only at hw
      split at hw
      · exact h.current w hw
      · rcases List.mem_append.1 hw with hw | hw
        · exact h.current w hw
        · rw [List.mem_singleton.1 hw]
          exact hrun
  unfold ParquetStore.append openWriter
  by_cases hopen : path ∈ s.writers
  · obtain ⟨f, hf⟩ := Option.isSome_iff_exists.1 ((h.writing.temp path).1 hopen)
    have hstored := hdone (f := { f with rows := f.rows ++ xs }) (by rw [hf]; rfl)
    rw [if_pos hopen] at hstored
    refine ⟨_, by simp only [if_pos hopen, addRows, hf], hstored, rfl⟩
  · have hnone : s.files.lookup (.temp path) = none := by
      by_contra hsome
      exact hopen ((h.writing.temp path).2 (Option.isSome_iff_ne_none.2 hsome))
    have hstored := hdone (f := { rows := [] ++ xs }) (by rw [hnone]; rfl)
    rw [if_neg hopen] at hstored
    refine ⟨_, by simp only [if_neg hopen, addRows, AList.lookup_insert, AList.insert_insert], hstored, rfl⟩

theorem Collecting.appendBuckets {run : String} (hfresh : run ∉ flushed) (hrun : run ∈ current) (bs : List (D × List E))
    (hbs : ∀ b ∈ bs, b.2 ≠ [] ∧ ∀ e ∈ b.2, c.partition e = b.1) :
    ∀ {s : ParquetStore D E} {events : Multiset E} (k : Nat) (written : List (PartName D)),
      Collecting c s flushed current events → ∃ w t, appendBuckets {} run s k bs written = (.ok w, t) ∧
        Collecting c t flushed current (events + contents bs) ∧ t.recordsWritten = s.recordsWritten := by
  induction bs with
  | nil => exact fun k written h => ⟨written, _, rfl, by rwa [contents_nil, add_zero], rfl⟩
  | cons b bs ih =>
    intro s events k written h
    obtain ⟨hb, hbs⟩ := List.forall_mem_cons.1 hbs
    obtain ⟨t, happend, ht, hrecords⟩ := h.append (show (b.1, run).2 ∉ flushed from hfresh) hrun hb.1 hb.2
    obtain ⟨w, t', hrest, ht', hrecords'⟩ :=
      ih hbs (k + 1) (if (b.1, run) ∈ written then written else written ++ [(b.1, run)]) ht
    refine ⟨w, t', ?_, by rwa [contents_cons, ← add_assoc], hrecords'.trans hrecords⟩
    rw [ParquetStore.appendBuckets]
    simp only [happend, hrest]

theorem Collecting.writeBatches {run : String} (hfresh : run ∉ flushed) (hrun : run ∈ current) (batches : List (List E)) :
    ∀ {s : ParquetStore D E} {events : Multiset E} (k : Nat) (written : List (PartName D)),
      Collecting c s flushed current events → ∃ w t, writeBatches c {} run s k batches written = (.ok w, t) ∧
        Collecting c t flushed current (events + batches.flatten) ∧
        t.recordsWritten = s.recordsWritten + batches.flatten.length := by
  induction batches with
  | nil => exact fun k written h => ⟨written, _, rfl, by simpa using ⟨h.writing, h.complete, h.flushed, h.current⟩, rfl⟩
  | cons batch batches ih =>
    intro s events k written h
    have hbuckets (b : D × List E) (hb : b ∈ groupBy c.partition batch) :=
      And.intro (groupBy_nonempty c.partition batch b hb) (groupBy_keyed c.partition batch b hb)
    obtain ⟨w, t, happend, ht, hrecords⟩ :=
      Collecting.appendBuckets hfresh hrun (groupBy c.partition batch) hbuckets k written h
    have hcounted : Collecting c { t with recordsWritten := t.recordsWritten + batch.length } flushed current
        (events + contents (groupBy c.partition batch)) := ⟨ht.writing, ht.complete, ht.flushed, ht.current⟩
    obtain ⟨w', t', hrest, ht', hrecords'⟩ := ih (k + (groupBy c.partition batch).length) w hcounted
    refine ⟨w', t', ?_, ?_, ?_⟩
    · rw [ParquetStore.writeBatches]
      simp only [happend, hrest]
    · rwa [List.flatten_cons, ← Multiset.coe_add, ← add_assoc, ← contents_groupBy c.partition batch]
    · rw [hrecords', List.flatten_cons, List.length_append]
      simp only [hrecords]
      omega

theorem Collecting.write (h : Collecting c s flushed current events) {runId : String} (hfresh : safeRun c runId ∉ flushed)
    (xs : List E) : ∃ w t, write c {} s xs runId = (.ok w, t) ∧
      Collecting c t flushed (current ++ [safeRun c runId]) (events + xs) ∧
      t.recordsWritten = s.recordsWritten + xs.length := by
  have hmono := h.mono (List.subset_append_left current [safeRun c runId])
  have hwritten := Collecting.writeBatches hfresh (by simp) (batched (max 1000 c.batchSize) xs) 0 [] hmono
  rwa [batched_flatten] at hwritten

/-- Closing the open writers publishes their files. -/
theorem Collecting.flushWriters (ws : List (PartName D)) : ∀ {files : Files (DataPath D) (ParquetFile E)} (k : Nat),
    Dataset.Writing c.partition ParquetFile.rows files ws events →
    (∀ w f, files.lookup (.final w) = some f → f.complete = true) →
    ∃ files', flushWriters {} k files ws [] = (.ok (), files', []) ∧
      Dataset.Writing c.partition ParquetFile.rows files' [] events ∧
      (∀ w f, files'.lookup (.final w) = some f → f.complete = true) ∧
      ∀ w, (files'.lookup (.final w)).isSome → (files.lookup (.final w)).isSome ∨ w ∈ ws := by
  induction ws with
  | nil => exact fun k h hcomplete => ⟨_, rfl, h, hcomplete, fun w hw => .inl hw⟩
  | cons path ws ih =>
    intro files k h hcomplete
    obtain ⟨f, hf⟩ := Option.isSome_iff_exists.1 ((h.temp path).1 List.mem_cons_self)
    have hfree := h.free path List.mem_cons_self
    have hclosed := h.close hf (show ParquetFile.rows { f with complete := true } = f.rows from rfl)
    have hfinalise : finalise none files path =
        (.ok (), Files.rename (files.insert (.temp path) { f with complete := true }) (.temp path) (.final path)) := by
      simp [finalise, ParquetStore.complete, hf, hfree, replace]
    have hlookup {w : PartName D} (hw : w ≠ path) :
        (Files.rename (files.insert (.temp path) { f with complete := true }) (.temp path) (.final path)).lookup (.final w) =
          files.lookup (.final w) := by
      rw [Files.lookup_rename_of_ne (by simp) (by simpa using hw), AList.lookup_insert_ne (by simp)]
    obtain ⟨files', hrest, hwriting, hcomplete', hfinals⟩ := ih (k + 1) hclosed.publish fun w g hg => by
      by_cases hw : w = path
      · rw [hw, Files.lookup_rename (AList.lookup_insert _), Option.some.injEq] at hg
        rw [← hg]
      · rw [hlookup hw] at hg
        exact hcomplete w g hg
    refine ⟨files', ?_, hwriting, hcomplete', fun w hw => ?_⟩
    · rw [ParquetStore.flushWriters]
      simp only [hfinalise, hrest]
    · rcases hfinals w hw with hw | hw
      · by_cases hpath : w = path
        · exact .inr (hpath ▸ List.mem_cons_self)
        · rw [hlookup hpath] at hw
          exact .inl hw
      · exact .inr (List.mem_cons_of_mem _ hw)

theorem Collecting.flush (h : Collecting c s flushed current events) :
    ∃ t, flush {} s = (.ok (), t) ∧ Collecting c t (flushed ++ current) [] events ∧ t.writers = [] ∧
      t.recordsWritten = s.recordsWritten := by
  obtain ⟨files, hflush, hwriting, hcomplete, hfinals⟩ := Collecting.flushWriters s.writers 0 h.writing h.complete
  refine ⟨{ s with files := files, writers := [] }, ?_, ⟨hwriting, hcomplete, fun w hw => ?_, ?_⟩, rfl, rfl⟩
  · unfold ParquetStore.flush
    rw [hflush]
  · rcases hfinals w hw with hw | hw
    · exact List.mem_append_left _ (h.flushed w hw)
    · exact List.mem_append_right _ (h.current w hw)
  · exact fun w hw => absurd hw List.not_mem_nil

/-- The calls return, and the store has the rows of all they have written. -/
theorem Collecting.performAll (calls : List (StoreCall E)) : ∀ {s : ParquetStore D E} {flushed current : List String}
    {events : Multiset E}, Collecting c s flushed current events → NoReuse c flushed current calls →
    ∃ t flushed' current', performAll c s calls = (.ok (), t) ∧
      Collecting c t flushed' current' (events + calls.flatMap StoreCall.events) ∧
      t.recordsWritten = s.recordsWritten + (calls.flatMap StoreCall.events).length := by
  induction calls with
  | nil => exact fun h _ => ⟨_, _, _, rfl, by simpa using h, rfl⟩
  | cons call calls ih =>
    intro s flushed current events h hruns
    cases call with
    | write xs runId =>
      obtain ⟨w, t, hwrite, ht, hrecords⟩ := h.write hruns.1 xs
      obtain ⟨t', flushed', current', hrest, ht', hrecords'⟩ := ih ht hruns.2
      refine ⟨t', flushed', current', ?_, ?_, ?_⟩
      · simp only [ParquetStore.performAll, perform, hwrite, Except.map, hrest]
      · rwa [List.flatMap_cons, StoreCall.events, ← Multiset.coe_add, ← add_assoc]
      · rw [hrecords', hrecords, List.flatMap_cons, List.length_append, StoreCall.events]
        omega
    | flush =>
      obtain ⟨t, hflush, ht, -, hrecords⟩ := h.flush
      obtain ⟨t', flushed', current', hrest, ht', hrecords'⟩ := ih ht hruns
      refine ⟨t', flushed', current', ?_, ht', ?_⟩
      · simp only [ParquetStore.performAll, perform, hflush, hrest]
      · rw [hrecords', hrecords]
        rfl

end

/-! ## Reading -/

section

variable {E : Type} (u : Unicode) (root : Path) (timestamp : E → Clock)

/-- A file without its footer is skipped. -/
def readRows (f : ParquetFile E) : List E := if f.complete then f.rows else []

def read (s : ParquetStore Path E) (start stop : Option Moment) (limit : Option Int) : Except Exn (List E) := do
  let parts ← Dataset.paths u "parquet" s.files root (start.map Moment.datetime) (stop.map Moment.datetime)
  return yieldRows (fun row =>
      start.any (fun m => ((timestamp row).micros : Int) < m.instant) ||
        stop.any fun m => m.instant < ((timestamp row).micros : Int)) limit 0
    (parts.flatMap (Dataset.rowsOf readRows s.files))

variable {u root timestamp}

/-- Without a limit `read` is the rows of the listed files that lie in the range. -/
theorem read_all {s : ParquetStore Path E} {start stop : Option Moment} {rows : List E} :
    read u root timestamp s start stop none = .ok rows ↔
      ∃ parts, Dataset.paths u "parquet" s.files root (start.map Moment.datetime) (stop.map Moment.datetime) = .ok parts ∧
        (parts.flatMap (Dataset.rowsOf readRows s.files)).filter (fun e => inRange start stop (timestamp e)) = rows := by
  have hskip (e : E) : (!(start.any (fun m => ((timestamp e).micros : Int) < m.instant) ||
      stop.any (fun m => m.instant < ((timestamp e).micros : Int)))) = inRange start stop (timestamp e) := by
    rw [Bool.eq_iff_iff]
    cases start <;> cases stop <;> simp [inRange]
  rw [read, bind_ok]
  simp only [yieldRows_none, hskip]
  exact exists_congr fun parts => and_congr_right fun _ => ⟨Except.ok.inj, congrArg Except.ok⟩

end

/-! ## The round trip -/

def defaultPartitionKeys : List PartitionKey := [.year, .month, .day]

/-- The partition directory of an event, under the default keys. -/
def eventDirectory (root : Path) (event : LogEvent) : Path :=
  Dataset.directory root defaultPartitionKeys event.timestamp

/-- A store with the default keys. -/
def config (u : Unicode) (root : Path) (batchSize : Nat) : ParquetConfig Path LogEvent where
  unicode := u
  batchSize := batchSize
  partition := eventDirectory root

/-- Pruning raises nowhere and keeps the directory of every event in the range. -/
structure Found (u : Unicode) (root : Path) (events : List LogEvent) (start stop : Option Moment) : Prop where
  readable : Dataset.Readable u (eventDirectory root) events (start.map Moment.datetime) (stop.map Moment.datetime)
  kept : ∀ e ∈ events, inRange start stop e.timestamp = true →
    Dataset.Kept u (start.map Moment.datetime) (stop.map Moment.datetime) (eventDirectory root e)

/-- The calls and a last `flush` return; then the count is that of the events, `read()` yields them all and
`read(start, end)` those in the range. -/
def RoundTrip (u : Unicode) (root : Path) (batchSize : Nat) (calls : List (StoreCall LogEvent))
    (start stop : Option Moment) : Prop :=
  ∃ t, performAll (config u root batchSize) { files := ∅ } (calls ++ [.flush]) = (.ok (), t) ∧
    t.recordsWritten = (calls.flatMap StoreCall.events).length ∧
    (∃ rows, read u root LogEvent.timestamp t none none none = .ok rows ∧ rows.Perm (calls.flatMap StoreCall.events)) ∧
    ∃ rows, read u root LogEvent.timestamp t start stop none = .ok rows ∧
      rows.Perm ((calls.flatMap StoreCall.events).filter fun e => inRange start stop e.timestamp)

/-- A range can be read back exactly when pruning finds its events. -/
theorem read_iff_found {u : Unicode} (hu : u.Lawful) {root : Path} {s : ParquetStore Path LogEvent} {events : List LogEvent}
    (h : Dataset.Holds (eventDirectory root) readRows s.files events) (start stop : Option Moment) :
    (∃ rows, read u root LogEvent.timestamp s start stop none = .ok rows ∧
        rows.Perm (events.filter fun e => inRange start stop e.timestamp)) ↔ Found u root events start stop := by
  have hlisted : Partitioning.Listed u root defaultPartitionKeys := .inl (by decide)
  constructor
  · rintro ⟨rows, hread, hperm⟩
    obtain ⟨parts, hparts, rfl⟩ := read_all.1 hread
    refine ⟨(h.exists_paths hu hlisted "parquet").1 ⟨parts, hparts⟩, fun e he hrange => ?_⟩
    obtain ⟨dirs, hrows, hkept⟩ := h.paths_spec hu hlisted hparts
    have hmem := (List.mem_filter.1 (hperm.mem_iff.2 (List.mem_filter.2 ⟨he, hrange⟩))).1
    rw [← Multiset.mem_coe, hrows, Multiset.mem_filter] at hmem
    exact (hkept e he).1 hmem.2
  · rintro ⟨hreadable, hfound⟩
    obtain ⟨parts, hparts⟩ := (h.exists_paths hu hlisted "parquet").2 hreadable
    obtain ⟨dirs, hrows, hkept⟩ := h.paths_spec hu hlisted hparts
    refine ⟨_, read_all.2 ⟨parts, hparts, rfl⟩, ?_⟩
    have hcoe (rows : List LogEvent) : ((rows.filter fun e => inRange start stop e.timestamp : List LogEvent) :
        Multiset LogEvent) = (rows : Multiset LogEvent).filter fun e => inRange start stop e.timestamp = true := by
      rw [Multiset.filter_coe]
      simp
    rw [← Multiset.coe_eq_coe, hcoe, hcoe, hrows, Multiset.filter_filter]
    refine Multiset.filter_congr fun e he => and_iff_left_of_imp fun hrange => ?_
    exact (hkept e he).2 (hfound e he hrange)

/-- Below a root that says no hour, a directory says the day of its events. -/
theorem day_of_directory {u : Unicode} (hu : u.Lawful) {root : Path} (hroot : Partitioning.parsePartition u root .hour = none)
    (event : LogEvent) : ∃ m, Partitioning.partitionDatetime u (eventDirectory root event) = .ok (some m) ∧
      m.micros = event.timestamp.day * dayMicros ∧
      Partitioning.partitionEnd m (Partitioning.parsePartition u (eventDirectory root event)) = m.add dayMicros := by
  have hfields := Calendar.valid_fields event.timestamp.day
  have hsays := Partitioning.parsePartition_below hu root event.timestamp defaultPartitionKeys
  obtain ⟨m, hm, hmicros⟩ := Partitioning.datetime_ok hfields event.timestamp.year_le (Nat.zero_le 23)
  rw [Calendar.dayNumber_fields, Nat.zero_mul, Nat.add_zero] at hmicros
  refine ⟨m, ?_, hmicros, ?_⟩
  · simp only [Partitioning.partitionDatetime, eventDirectory, Dataset.directory, hsays, hroot]
    exact map_ok.2 ⟨m, by simpa [defaultPartitionKeys, PartitionKey.field] using hm, rfl⟩
  · simp only [Partitioning.partitionEnd, eventDirectory, Dataset.directory, hsays, hroot]
    simp [defaultPartitionKeys]

/-- The next day begins within the calendar, unless it is the last. -/
theorem exists_add_day {m : Clock} {t : Clock} (hm : m.micros = t.day * dayMicros) :
    (∃ e, m.add dayMicros = .ok e) ↔ t.day + 1 < Calendar.daysBeforeYear 10000 := by
  have hlast : (t.day + 1) * dayMicros < endMicros ↔ t.day + 1 < Calendar.daysBeforeYear 10000 :=
    Nat.mul_lt_mul_right (by decide)
  rw [← hlast, Nat.add_mul, Nat.one_mul, ← hm]
  constructor
  · rintro ⟨e, he⟩
    have hadd := Partitioning.add_ok he
    have := e.lt_end
    omega
  · intro hlt
    exact ⟨⟨m.micros + dayMicros, hlt⟩, Clock.ofMicros_ok.2 (by simp)⟩

theorem exists_utc {bound : Option Moment} : (∀ d ∈ bound.map Moment.datetime, ∃ utc, Timeutil.ensureUtc d = .ok utc) ↔
    ∀ m ∈ bound, 0 ≤ m.instant ∧ m.instant < endMicros := by
  simp only [Option.mem_map, forall_exists_index, and_imp, forall_apply_eq_imp_iff₂]
  refine forall₂_congr fun m _ => ⟨fun ⟨utc, hutc⟩ => ?_, fun ⟨hpos, hlt⟩ => ?_⟩
  · have hinstant : m.instant = utc.micros := Timeutil.ensureUtc_ok.1 hutc
    have := utc.lt_end
    omega
  · refine ⟨⟨m.instant.toNat, by omega⟩, Timeutil.ensureUtc_ok.2 ?_⟩
    exact (Int.toNat_of_nonneg hpos).symm

theorem map_none {start stop : Option Moment} :
    (start.map Moment.datetime = none ∧ stop.map Moment.datetime = none) ↔ start = none ∧ stop = none := by
  simp only [Option.map_eq_none_iff]

section

variable {u : Unicode} (hu : u.Lawful) {root : Path} (hroot : Partitioning.parsePartition u root .hour = none)

include hu hroot

/-- There pruning raises nowhere, unless a bound has no UTC time or, when there is a bound, an event is on the
last day of the calendar. -/
theorem readable_iff (events : List LogEvent) (start stop : Option Moment) :
    Dataset.Readable u (eventDirectory root) (events : Multiset LogEvent) (start.map Moment.datetime)
        (stop.map Moment.datetime) ↔
      (∀ m ∈ start, 0 ≤ m.instant ∧ m.instant < endMicros) ∧ (∀ m ∈ stop, 0 ≤ m.instant ∧ m.instant < endMicros) ∧
        (¬(start = none ∧ stop = none) → ∀ e ∈ events, e.timestamp.day + 1 < Calendar.daysBeforeYear 10000) := by
  constructor
  · intro hreadable
    refine ⟨exists_utc.1 hreadable.start_utc, exists_utc.1 hreadable.stop_utc, fun hb e he => ?_⟩
    obtain ⟨m, hm, hmicros, hend⟩ := day_of_directory hu hroot e
    have hok := hreadable.ends (map_none.not.2 hb) e he m hm
    rw [hend] at hok
    exact (exists_add_day hmicros).1 hok
  · rintro ⟨hstart, hstop, hdays⟩
    refine ⟨exists_utc.2 hstart, exists_utc.2 hstop, fun e _ => ?_, fun hb e he moment hmoment => ?_⟩
    · obtain ⟨m, hm, -, -⟩ := day_of_directory hu hroot e
      exact ⟨some m, hm⟩
    · obtain ⟨m, hm, hmicros, hend⟩ := day_of_directory hu hroot e
      rw [hm, Except.ok.injEq, Option.some.injEq] at hmoment
      rw [← hmoment, hend]
      exact (exists_add_day hmicros).2 (hdays (map_none.not.1 hb) e he)

/-- A directory is kept when its day meets the range. -/
theorem kept_of_day {e : LogEvent} {start stop : Option Moment}
    (hday : ¬(start = none ∧ stop = none) → e.timestamp.day + 1 < Calendar.daysBeforeYear 10000)
    (hstart : ∀ m ∈ start, m.instant < ((e.timestamp.day + 1) * dayMicros : Nat))
    (hstop : ∀ m ∈ stop, ((e.timestamp.day * dayMicros : Nat) : Int) ≤ m.instant) :
    Dataset.Kept u (start.map Moment.datetime) (stop.map Moment.datetime) (eventDirectory root e) := by
  by_cases hb : start = none ∧ stop = none
  · exact .inl (map_none.2 hb)
  · obtain ⟨m, hm, hmicros, hend⟩ := day_of_directory hu hroot e
    obtain ⟨t, ht⟩ := (exists_add_day hmicros).2 (hday hb)
    have hadd := Partitioning.add_ok ht
    rw [hmicros, ← Nat.succ_mul] at hadd
    refine .inr (.inr ⟨m, t, hm, hend.trans ht, fun d hd => ?_, fun d hd => ?_⟩)
    · obtain ⟨s, hs, rfl⟩ := Option.map_eq_some_iff.1 hd
      rw [hadd]
      exact hstart s hs
    · obtain ⟨s, hs, rfl⟩ := Option.map_eq_some_iff.1 hd
      rw [hmicros]
      exact hstop s hs

/-- There pruning finds every event of the range, when it raises nowhere. -/
theorem found_iff (events : List LogEvent) (start stop : Option Moment) :
    Found u root events start stop ↔
      (∀ m ∈ start, 0 ≤ m.instant ∧ m.instant < endMicros) ∧ (∀ m ∈ stop, 0 ≤ m.instant ∧ m.instant < endMicros) ∧
        (¬(start = none ∧ stop = none) → ∀ e ∈ events, e.timestamp.day + 1 < Calendar.daysBeforeYear 10000) := by
  rw [← readable_iff hu hroot]
  refine ⟨Found.readable, fun hreadable => ⟨hreadable, fun e he hrange => ?_⟩⟩
  obtain ⟨-, -, hdays⟩ := (readable_iff hu hroot events start stop).1 hreadable
  have hsplit := e.timestamp.day_timeOfDay
  have htod := e.timestamp.timeOfDay_lt
  have hnext : (e.timestamp.day + 1) * dayMicros = e.timestamp.day * dayMicros + dayMicros := Nat.succ_mul _ _
  rw [inRange, Bool.and_eq_true] at hrange
  refine kept_of_day hu hroot (fun hb => hdays hb e he) (fun m hm => ?_) fun m hm => ?_
  · have hle : m.instant ≤ (e.timestamp.micros : Int) := by
      rw [hm] at hrange
      simpa using hrange.1
    omega
  · have hle : (e.timestamp.micros : Int) ≤ m.instant := by
      rw [hm] at hrange
      simpa using hrange.2
    omega

end

theorem performAll_append {D E : Type} [DecidableEq D] {c : ParquetConfig D E} {s t : ParquetStore D E}
    {calls : List (StoreCall E)} (h : performAll c s calls = (.ok (), t)) (more : List (StoreCall E)) :
    performAll c s (calls ++ more) = performAll c t more := by
  induction calls generalizing s with
  | nil =>
    cases h
    rfl
  | cons call calls ih =>
    rw [performAll] at h
    rw [List.cons_append, performAll]
    rcases hcall : perform c s call with ⟨_ | _, s'⟩
    · rw [hcall] at h
      cases h
    · rw [hcall] at h
      exact ih h

theorem roundTrip_iff_found {u : Unicode} (hu : u.Lawful) {root : Path} {batchSize : Nat} {calls : List (StoreCall LogEvent)}
    (hruns : NoReuse (config u root batchSize) [] [] calls) (start stop : Option Moment) :
    RoundTrip u root batchSize calls start stop ↔ Found u root (calls.flatMap StoreCall.events) start stop := by
  have hstart : Collecting (config u root batchSize) { files := ∅ } [] [] 0 := .start
  obtain ⟨s, flushed, current, hcalls, hs, hrecords⟩ := Collecting.performAll calls hstart hruns
  obtain ⟨t, hflush, ht, hwriters, hrecords'⟩ := hs.flush
  have hall : performAll (config u root batchSize) { files := ∅ } (calls ++ [.flush]) = (.ok (), t) := by
    rw [performAll_append hcalls]
    simp only [performAll, perform, hflush]
  have hwriting := ht.writing
  rw [hwriters, zero_add] at hwriting
  have hholds : Dataset.Holds (eventDirectory root) readRows t.files (calls.flatMap StoreCall.events) :=
    hwriting.holds fun w f hf => if_pos (ht.complete w f hf)
  constructor
  · rintro ⟨t', hall', -, -, hread⟩
    rw [hall] at hall'
    cases hall'
    exact (read_iff_found hu hholds start stop).1 hread
  · intro hfound
    have hread := (read_iff_found hu hholds none none).2
      ⟨⟨by simp, by simp, hfound.readable.dated, by simp⟩, fun _ _ _ => .inl ⟨rfl, rfl⟩⟩
    have hnone (e : LogEvent) : inRange none none e.timestamp = true := rfl
    simp only [hnone, List.filter_true] at hread
    refine ⟨t, hall, ?_, hread, (read_iff_found hu hholds start stop).2 hfound⟩
    rw [hrecords', hrecords]
    exact Nat.zero_add _

/-- What is written without reusing a run id is read back exactly when pruning finds it: below a root that says
no hour, when the bounds have a UTC time and, if there is a bound, no event is on the calendar's last day. -/
theorem parquet_round_trip {u : Unicode} (hu : u.Lawful) {root : Path} {batchSize : Nat} {calls : List (StoreCall LogEvent)}
    (hruns : NoReuse (config u root batchSize) [] [] calls) (start stop : Option Moment) :
    (RoundTrip u root batchSize calls start stop ↔ Found u root (calls.flatMap StoreCall.events) start stop) ∧
    (Partitioning.parsePartition u root .hour = none →
      (RoundTrip u root batchSize calls start stop ↔
        (∀ m ∈ start, 0 ≤ m.instant ∧ m.instant < endMicros) ∧ (∀ m ∈ stop, 0 ≤ m.instant ∧ m.instant < endMicros) ∧
          (¬(start = none ∧ stop = none) →
            ∀ e ∈ calls.flatMap StoreCall.events, e.timestamp.day + 1 < Calendar.daysBeforeYear 10000))) := by
  have hiff := roundTrip_iff_found hu hruns start stop
  exact ⟨hiff, fun hroot => hiff.trans (found_iff hu hroot _ start stop)⟩

/-! ## A day without an end -/

/-- The last microsecond of the calendar. -/
def lastMoment : Clock := ⟨endMicros - 1, by decide⟩

def epoch : Moment := { clock := ⟨Timeutil.epochMicros, by decide⟩, offset := 0 }

/-- Two runs with a flush between them, read back from 1970 on. -/
theorem parquet_round_trip_two_runs : RoundTrip asciiUnicode ["/", "data"] 50000
    [.write [requestEvent 1, requestEvent 2] "first", .flush, .write [requestEvent 3] "second"] (some epoch) none := by
  refine ((parquet_round_trip asciiUnicode_lawful ?_ (some epoch) none).2 (by decide)).2 ⟨?_, by simp, fun _ => ?_⟩
  · exact ⟨by decide, by decide, trivial⟩
  · rintro m ⟨⟩
    decide
  · intro e he
    have htime : e.timestamp = Timeutil.minTimestamp := by
      simp only [List.flatMap_cons, StoreCall.events, List.flatMap_nil, List.append_nil, List.mem_append, List.mem_cons,
        List.not_mem_nil, or_false, false_or] at he
      rcases he with (rfl | rfl) | rfl <;> rfl
    rw [htime]
    decide

/-- An event on 9999-12-31 cannot be read back from 1970 on: the end of its partition is no date. -/
theorem last_day_unreadable : ¬ ∀ (u : Unicode), u.Lawful → ∀ (root : Path) (batchSize : Nat)
    (calls : List (StoreCall LogEvent)), NoReuse (config u root batchSize) [] [] calls → ∀ start stop : Option Moment,
      RoundTrip u root batchSize calls start stop := by
  intro h
  have hruns : NoReuse (config asciiUnicode ["/", "data"] 50000) [] []
      [.write [{ requestEvent 1 with timestamp := lastMoment }] "first"] := ⟨List.not_mem_nil, trivial⟩
  have hfound := (roundTrip_iff_found asciiUnicode_lawful hruns (some epoch) none).1
    (h asciiUnicode asciiUnicode_lawful _ _ _ hruns (some epoch) none)
  have hday := ((found_iff asciiUnicode_lawful (by decide) _ (some epoch) none).1 hfound).2.2 (by simp)
    { requestEvent 1 with timestamp := lastMoment } (by simp [StoreCall.events])
  exact absurd hday (by decide)

end ParquetStore

end LogAnalytics
