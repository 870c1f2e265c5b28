import LogAnalytics.Ingestion.Files
import LogAnalytics.Pipeline.Assembly
/-!
# One file among others

`DirectorySource.read` goes on behind a file whose `read` raises an `IngestionError`. Which answers
of the file system come to that: a source is made outside the block that catches, and each kind of
source turns other exceptions into an `IngestionError`.
-/
open LogAnalytics.Lib

namespace LogAnalytics

/-! ## What is caught -/

/-- It raises nothing but an `IngestionError`. -/
def Caught (result : Except Exn Unit) : Prop := ∀ exn, result = .error exn → exn.cls = .ingestionError

theorem caught_ok : Caught (.ok ()) := by
  intro exn h
  cases h

theorem caught_error {exn : Exn} : Caught (.error exn) ↔ exn.cls = .ingestionError :=
  ⟨fun h => h exn rfl, fun h _ heq => Except.error.inj heq ▸ h⟩

theorem caught_raised {exn : Option Exn} : Caught (raised exn) ↔ ∀ e ∈ exn, e.cls = .ingestionError := by
  cases exn with
  | none => exact iff_of_true caught_ok (by simp)
  | some exn => simpa [raised] using caught_error

/-- The stream breaks off with nothing else. -/
def TextStream.EndsCaught (stream : TextStream) : Prop := ∀ exn ∈ stream.raises, exn.cls = .ingestionError

namespace FileSource

/-- A regular file that opens, or does not with an `OSError`, and does not break off. -/
def Contained (entry : FileEntry) : Prop :=
  (∃ path, entry.resolved = .ok path) ∧ entry.isFile = .ok true ∧
    match entry.stream with
    | .error exn => exn.isOSError = true ∨ exn.cls = .ingestionError
    | .ok stream => stream.EndsCaught

theorem create_ok {entry : FileEntry} {maxLineBytes : Nat} {skipHeader : Bool} :
    (∃ s, create entry maxLineBytes skipHeader = .ok s) ↔ (∃ path, entry.resolved = .ok path) ∧ entry.isFile = .ok true := by
  unfold create
  cases entry.resolved with
  | error exn => simp [bind, Except.bind]
  | ok path =>
    cases entry.isFile with
    | error exn => simp [bind, Except.bind]
    | ok isFile => cases isFile <;> simp [bind, Except.bind]

theorem caught_read (size : Text → Nat) (s : FileSource) (entry : FileEntry) :
    Caught (s.read size entry).1 ↔
      match entry.stream with
      | .error exn => exn.isOSError = true ∨ exn.cls = .ingestionError
      | .ok stream => stream.EndsCaught := by
  unfold read
  cases entry.stream with
  | ok stream => exact caught_raised
  | error exn =>
    dsimp only
    rw [caught_error]
    by_cases hos : exn.isOSError = true <;> simp [hos]

end FileSource

namespace CsvFileSource

/-- A file that opens and does not break off, and whose rows `csv` can read. -/
def Contained (sniff : Text → Option CsvFormat) (s : CsvFileSource) (entry : FileEntry) : Prop :=
  match entry.stream with
  | .error exn => exn.cls = .ingestionError
  | .ok stream =>
    match stream.lines with
    | [] => stream.EndsCaught
    | first :: more =>
      first.strip = [] ∨
        match s.readHeader (s.dialect sniff first) first with
        | .error exn => exn.cls = .ingestionError
        | .ok _ => (Csv.rowsFrom (s.dialect sniff first) stream.raises.isSome {} more).2 = none ∧ stream.EndsCaught

theorem csvError_cls (s : CsvFileSource) (error : Csv.Error) : (s.csvError error).cls ≠ .ingestionError := by
  cases error <;> exact ExnClass.noConfusion

theorem caught_read (sniff : Text → Option CsvFormat) (s : CsvFileSource) (entry : FileEntry) :
    Caught (s.read sniff entry).1 ↔ s.Contained sniff entry := by
  unfold read Contained
  cases entry.stream with
  | error exn => exact caught_error
  | ok stream =>
    dsimp only
    unfold readStream
    cases stream.lines with
    | nil => exact caught_raised
    | cons first more =>
      dsimp only
      by_cases hblank : first.strip = []
      · rw [if_pos hblank]
        exact iff_of_true caught_ok (.inl hblank)
      · rw [if_neg hblank, or_iff_right hblank]
        cases s.readHeader (s.dialect sniff first) first with
        | error exn => exact caught_error
        | ok header =>
          dsimp only
          rw [caught_raised]
          cases (Csv.rowsFrom (s.dialect sniff first) stream.raises.isSome {} more).2 with
          | none => exact (and_iff_right rfl).symm
          | some error =>
            -- a row that cannot be read is not caught, whatever the stream would have done
            refine iff_of_false (fun h => csvError_cls s error (h _ rfl)) ?_
            rintro ⟨hnone, -⟩
            cases hnone

end CsvFileSource

namespace JsonArrayFileSource

/-- A file whose size is known and, unless it is too large, that is read or not for an `OSError` or a
`ValueError`. -/
def Contained (py : Python) (s : JsonArrayFileSource) (entry : FileEntry) : Prop :=
  match entry.size with
  | .error exn => exn.cls = .ingestionError
  | .ok size =>
    s.inlineLimit < size ∨ ∀ exn, entry.content.bind (decode py) = .error exn →
      (exn.isOSError || exn.isValueError) = true ∨ exn.cls = .ingestionError

theorem caught_read (py : Python) (s : JsonArrayFileSource) (entry : FileEntry) :
    Caught (s.read py entry).1 ↔ s.Contained py entry := by
  unfold read Contained
  cases entry.size with
  | error exn => exact caught_error
  | ok size =>
    dsimp only
    by_cases hlarge : s.inlineLimit < size
    · rw [if_pos hlarge]
      exact iff_of_true (caught_error.2 rfl) (.inl hlarge)
    · rw [if_neg hlarge, or_iff_right hlarge]
      cases entry.content.bind (decode py) with
      | ok decoded =>
        refine iff_of_true caught_ok fun exn h => ?_
        cases h
      | error exn =>
        dsimp only
        rw [caught_error]
        by_cases hcaught : (exn.isOSError || exn.isValueError) = true
        · rw [if_pos hcaught]
          exact iff_of_true rfl fun e h => .inl (Except.error.inj h ▸ hcaught)
        · rw [if_neg hcaught]
          constructor
          · exact fun hcls e h => .inr (Except.error.inj h ▸ hcls)
          · exact fun h => (h exn rfl).resolve_left hcaught

end JsonArrayFileSource

/-! ## Directories -/

/-- A file whose failures, if any, are caught: its source can be made, and what reading it raises is
or becomes an `IngestionError`. -/
def Contained (lib : FileLibrary) (options : FileOptions) (path : FilePath) (entry : FileEntry) : Prop :=
  let suffix := path.effectiveSuffix lib.textCase
  if suffix ∈ tabularExtensions then ∃ s, CsvFileSource.create entry options.delimiter = .ok s ∧ s.Contained lib.sniff entry
  else if suffix = Text.ofString ".json" then
    ∃ s, JsonArrayFileSource.create entry options.inlineLimit = .ok s ∧ s.Contained lib.toPython entry
  else FileSource.Contained entry

/-- What a file yields by itself. -/
def readFile (lib : FileLibrary) (options : FileOptions) (path : FilePath) (entry : FileEntry) :
    Except Exn Unit × SourceReading :=
  match openFileSource lib options path entry with
  | .error exn => (.error exn, {})
  | .ok source => source.read lib entry

/-- Its source can be made and raises nothing but an `IngestionError`. -/
theorem contained_iff (lib : FileLibrary) (options : FileOptions) (path : FilePath) (entry : FileEntry) :
    Contained lib options path entry ↔
      ∃ source, openFileSource lib options path entry = .ok source ∧ Caught (source.read lib entry).1 := by
  unfold Contained openFileSource
  dsimp only
  split
  · constructor
    · rintro ⟨s, hcreate, hcontained⟩
      exact ⟨.csv s, by rw [hcreate]; rfl, (s.caught_read lib.sniff entry).2 hcontained⟩
    · rintro ⟨source, hopen, hcaught⟩
      cases hcreate : CsvFileSource.create entry options.delimiter with
      | error exn =>
        rw [hcreate] at hopen
        cases hopen
      | ok s =>
        rw [hcreate] at hopen
        cases hopen
        exact ⟨s, rfl, (s.caught_read lib.sniff entry).1 hcaught⟩
  · split
    · constructor
      · rintro ⟨s, hcreate, hcontained⟩
        exact ⟨.json s, by rw [hcreate]; rfl, (s.caught_read lib.toPython entry).2 hcontained⟩
      · rintro ⟨source, hopen, hcaught⟩
        cases hcreate : JsonArrayFileSource.create entry options.inlineLimit with
        | error exn =>
          rw [hcreate] at hopen
          cases hopen
        | ok s =>
          rw [hcreate] at hopen
          cases hopen
          exact ⟨s, rfl, (s.caught_read lib.toPython entry).1 hcaught⟩
    · constructor
      · rintro ⟨hpath, hfile, hstream⟩
        obtain ⟨s, hcreate⟩ := FileSource.create_ok.2 ⟨hpath, hfile⟩
        exact ⟨.file s, by rw [hcreate]; rfl, (s.caught_read lib.encodedSize entry).2 hstream⟩
      · rintro ⟨source, hopen, hcaught⟩
        cases hcreate : FileSource.create entry options.maxLineBytes options.skipHeader with
        | error exn =>
          rw [hcreate] at hopen
          cases hopen
        | ok s =>
          rw [hcreate] at hopen
          cases hopen
          obtain ⟨hpath, hfile⟩ := FileSource.create_ok.1 ⟨s, hcreate⟩
          exact ⟨hpath, hfile, (s.caught_read lib.encodedSize entry).1 hcaught⟩

namespace DirectorySource

/-- All files are read in order, those that fail up to where they do, and counted. -/
def Isolates (lib : FileLibrary) (options : FileOptions) (entries : FilePath → FileEntry) (s : DirectorySource) : Prop :=
  let (result, reading) := s.read lib options entries
  result = .ok () ∧
    reading.records = s.files.flatMap (fun path => (readFile lib options path (entries path)).2.records) ∧
    reading.stats.errors = s.files.countP fun path => !(readFile lib options path (entries path)).1.isOk

section

variable (lib : FileLibrary) (options : FileOptions) (entries : FilePath → FileEntry)

/-- A file that is contained: the others are read, and it counts if it failed. -/
theorem readFrom_contained {path : FilePath} (h : Contained lib options path (entries path)) (paths : List FilePath)
    (r : SourceReading) :
    ∃ t, readFrom lib options entries (path :: paths) r = readFrom lib options entries paths t ∧
      t.records = r.records ++ (readFile lib options path (entries path)).2.records ∧
      t.stats.errors = r.stats.errors + if (readFile lib options path (entries path)).1.isOk then 0 else 1 := by
  obtain ⟨source, hopen, hcaught⟩ := (contained_iff lib options path (entries path)).1 h
  rw [readFrom, readFile, hopen]
  dsimp only
  cases hresult : (source.read lib (entries path)).1 with
  | ok value => exact ⟨_, rfl, rfl, rfl⟩
  | error exn =>
    dsimp only
    rw [if_pos (hcaught exn hresult)]
    exact ⟨_, rfl, rfl, rfl⟩

/-- Nothing is read behind a file that is not contained. -/
theorem readFrom_not_contained {path : FilePath} (h : ¬ Contained lib options path (entries path)) (paths : List FilePath)
    (r : SourceReading) : (readFrom lib options entries (path :: paths) r).1 ≠ .ok () := by
  rw [contained_iff] at h
  rw [readFrom]
  cases hopen : openFileSource lib options path (entries path) with
  | error exn =>
    intro hok
    cases hok
  | ok source =>
    dsimp only
    cases hresult : (source.read lib (entries path)).1 with
    | ok value =>
      refine absurd ⟨source, hopen, ?_⟩ h
      rw [hresult]
      exact caught_ok
    | error exn =>
      dsimp only
      have hcls : exn.cls ≠ .ingestionError := by
        intro hcls
        refine h ⟨source, hopen, ?_⟩
        rw [hresult]
        exact caught_error.2 hcls
      rw [if_neg hcls]
      intro hok
      cases hok

theorem readFrom_ok {paths : List FilePath} (h : ∀ path ∈ paths, Contained lib options path (entries path))
    (r : SourceReading) :
    (readFrom lib options entries paths r).1 = .ok () ∧
    (readFrom lib options entries paths r).2.records =
      r.records ++ paths.flatMap (fun path => (readFile lib options path (entries path)).2.records) ∧
    (readFrom lib options entries paths r).2.stats.errors =
      r.stats.errors + paths.countP fun path => !(readFile lib options path (entries path)).1.isOk := by
  induction paths generalizing r with
  | nil => simp [readFrom]
  | cons path paths ih =>
    obtain ⟨hpath, hpaths⟩ := List.forall_mem_cons.1 h
    obtain ⟨t, hstep, hrecords, herrors⟩ := readFrom_contained lib options entries hpath paths r
    obtain ⟨hok, hmore, hcount⟩ := ih hpaths t
    rw [hstep]
    refine ⟨hok, ?_, ?_⟩
    · rw [hmore, hrecords, List.flatMap_cons, List.append_assoc]
    · rw [hcount, herrors, List.countP_cons, Nat.add_assoc, Nat.add_comm (List.countP _ _)]
      cases (readFile lib options path (entries path)).1.isOk <;> rfl

theorem readFrom_raises {paths : List FilePath} (h : ∃ path ∈ paths, ¬ Contained lib options path (entries path))
    (r : SourceReading) : (readFrom lib options entries paths r).1 ≠ .ok () := by
  induction paths generalizing r with
  | nil =>
    obtain ⟨path, hpath, -⟩ := h
    exact absurd hpath List.not_mem_nil
  | cons path paths ih =>
    by_cases hcontained : Contained lib options path (entries path)
    · obtain ⟨t, hstep, -, -⟩ := readFrom_contained lib options entries hcontained paths r
      rw [hstep]
      obtain ⟨other, hother, hnot⟩ := h
      rcases List.mem_cons.1 hother with rfl | hother
      · exact absurd hcontained hnot
      · exact ih ⟨other, hother, hnot⟩ t
    · exact readFrom_not_contained lib options entries hcontained paths r

/-- A directory is read to its end if and only if every file is contained. -/
theorem isolates_iff (s : DirectorySource) :
    Isolates lib options entries s ↔ ∀ path ∈ s.files, Contained lib options path (entries path) := by
  unfold Isolates read
  constructor
  · rintro ⟨hok, -, -⟩
    by_contra hnot
    refine readFrom_raises lib options entries ?_ {} hok
    by_contra hnone
    exact hnot fun path hpath => by_contra fun hpathnot => hnone ⟨path, hpath, hpathnot⟩
  · intro h
    obtain ⟨hok, hrecords, herrors⟩ := readFrom_ok lib options entries h {}
    exact ⟨hok, hrecords, herrors.trans (Nat.zero_add _)⟩

end

/-! ## A file that is gone -/

def plainLibrary : FileLibrary where
  toPython := LogPipeline.plainPython LogPipeline.spelled
  sniff _ := none
  encodedSize := List.length

def goneCsv : FilePath := [Text.ofString "a.csv"]

def lineLog : FilePath := [Text.ofString "b.log"]

/-- `a.csv` was removed after it was listed. -/
def goneEntries (path : FilePath) : FileEntry where
  resolved := .ok path.name
  isFile := .ok true
  size := .ok 4
  stream :=
    if path = goneCsv then .error ⟨.osError, "No such file or directory"⟩
    else .ok { lines := [Text.ofString "up\n"] }
  content := .ok []

theorem goneCsv_lt : goneCsv ≤ lineLog ∧ goneCsv ≠ lineLog := by decide

def goneDirectory : DirectorySource where
  files := [goneCsv, lineLog]
  sorted := List.pairwise_pair.2 goneCsv_lt.1
  nodup := List.nodup_cons.2 ⟨fun h => goneCsv_lt.2 (List.mem_singleton.1 h), List.nodup_singleton _⟩

/-- A CSV file that is gone keeps the files behind it from being read. -/
theorem gone_csv_stops : ¬ Isolates plainLibrary {} goneEntries goneDirectory := by
  rintro ⟨hok, -, -⟩
  cases hok

end DirectorySource

end LogAnalytics
