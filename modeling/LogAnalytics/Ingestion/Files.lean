import Mathlib.Data.List.Dedup
import Mathlib.Data.List.Lex
import LogAnalytics.Lib.Csv
import LogAnalytics.Models.Records
import LogAnalytics.Parsers.Coerce
/-!
# Reading files

`FileSource`, `CsvFileSource`, `JsonArrayFileSource` and the `DirectorySource` that reads one file
after the other. What the file system answers for a file is an argument: any of its answers may be
an exception, and a stream may break off.
-/
open LogAnalytics.Lib

namespace LogAnalytics

/-! ## Files -/

namespace FilePath

def name (path : FilePath) : Text := path.getLastD []

/-- `path.suffix` and `path.stem` of a name: a dot at either end begins no suffix. -/
def splitSuffix (name : Text) : Text × Text :=
  let suffix := (name.reverse.takeWhile (· ≠ Timeutil.char '.')).reverse
  let stem := name.take (name.length - suffix.length - 1)
  if Timeutil.char '.' ∈ name ∧ stem ≠ [] ∧ suffix ≠ [] then (stem, Timeutil.char '.' :: suffix) else (name, [])

/-- `_effective_suffix` -/
def effectiveSuffix (case : TextCase) (path : FilePath) : Text :=
  let (stem, suffix) := splitSuffix path.name
  if case.lower suffix = Text.ofString ".gz" then case.lower (splitSuffix stem).2 else case.lower suffix

end FilePath

/-- Decoded lines with their ends, and what is raised behind them. -/
structure TextStream where
  lines : List Text
  raises : Option Exn := none

/-- What the file system answers for a path. -/
structure FileEntry where
  /-- `str(self.path)` of a source: `resolve_within` with the allowed roots, or `resolve`. -/
  resolved : Except Exn Text
  isFile : Except Exn Bool
  /-- `stat().st_size` -/
  size : Except Exn Nat
  /-- `open_stream` -/
  stream : Except Exn TextStream
  /-- `read_text` -/
  content : Except Exn Text

structure SourceStats where
  recordsRead : Nat := 0
  bytesRead : Nat := 0
  skippedEmpty : Nat := 0
  skippedOversized : Nat := 0
  errors : Nat := 0
  deriving DecidableEq

/-- What a source has yielded, and its `stats`. -/
structure SourceReading where
  records : List (RawRecord Dict) := []
  stats : SourceStats := {}

/-- Exhausting a stream raises what breaks it off. -/
def raised : Option Exn → Except Exn Unit
  | none => .ok ()
  | some exn => .error exn

/-! ## Lines -/

structure FileSource where
  path : Text
  maxLineBytes : Nat := 1048576
  skipHeader : Bool := false

namespace FileSource

/-- `FileSource(path)` -/
def create (entry : FileEntry) (maxLineBytes : Nat) (skipHeader : Bool) : Except Exn FileSource := do
  let path ← entry.resolved
  if !(← entry.isFile) then .error ⟨.ingestionError, "source is not a regular file"⟩
  else .ok { path := path, maxLineBytes := maxLineBytes, skipHeader := skipHeader }

/-- `line.rstrip("\r\n")` -/
def rstripBreaks (line : Text) : Text :=
  (line.reverse.dropWhile fun c => c = Timeutil.char '\r' || c = Timeutil.char '\n').reverse

/-- One line; `size` is the length of its encoding. -/
def readLine (size : Text → Nat) (s : FileSource) (r : SourceReading) (item : Text × Nat) : SourceReading :=
  let (line, number) := item
  if number = 1 ∧ s.skipHeader = true then r
  else
    let stripped := rstripBreaks line
    let stats := { r.stats with bytesRead := r.stats.bytesRead + size line }
    if stripped.strip = [] then { r with stats := { stats with skippedEmpty := stats.skippedEmpty + 1 } }
    else
      let oversized := if s.maxLineBytes < stripped.length then 1 else 0
      { records := r.records ++ [{ payload := .text (stripped.take s.maxLineBytes), source := s.path, lineNumber := some number }]
        stats := { stats with skippedOversized := stats.skippedOversized + oversized, recordsRead := stats.recordsRead + 1 } }

def read (size : Text → Nat) (s : FileSource) (entry : FileEntry) : Except Exn Unit × SourceReading :=
  match entry.stream with
  | .error exn => (.error (if exn.isOSError then ⟨.ingestionError, "failed to open the source file"⟩ else exn), {})
  | .ok stream => (raised stream.raises, (stream.lines.zipIdx 1).foldl (s.readLine size) {})

end FileSource

/-! ## Rows -/

/-- A `csv.Dialect`, as far as the sniffer fills it in. -/
structure CsvFormat where
  delimiter : CodePoint
  quotechar : CodePoint := Timeutil.char '"'
  doublequote : Bool := true
  skipinitialspace : Bool := false
  delimiter_ne_quotechar : delimiter ≠ quotechar
  delimiter_ne_cr : delimiter ≠ Timeutil.char '\r'
  delimiter_ne_lf : delimiter ≠ Timeutil.char '\n'
  quotechar_ne_cr : quotechar ≠ Timeutil.char '\r'
  quotechar_ne_lf : quotechar ≠ Timeutil.char '\n'

/-- A delimiter `csv` takes. -/
structure Delimiter where
  char : CodePoint
  ne_quote : char ≠ Timeutil.char '"'
  ne_cr : char ≠ Timeutil.char '\r'
  ne_lf : char ≠ Timeutil.char '\n'

theorem csvBreaks_ne : Timeutil.char '"' ≠ Timeutil.char '\r' ∧ Timeutil.char '"' ≠ Timeutil.char '\n' ∧
    Timeutil.char '\r' ≠ Timeutil.char '\n' := by decide

theorem comma_ne_quote : Timeutil.char ',' ≠ Timeutil.char '"' := by decide

theorem comma_ne_cr : Timeutil.char ',' ≠ Timeutil.char '\r' := by decide

theorem comma_ne_lf : Timeutil.char ',' ≠ Timeutil.char '\n' := by decide

namespace CsvFormat

/-- `csv.excel` with another delimiter. -/
def forced (delimiter : Delimiter) : CsvFormat where
  delimiter := delimiter.char
  delimiter_ne_quotechar := delimiter.ne_quote
  delimiter_ne_cr := delimiter.ne_cr
  delimiter_ne_lf := delimiter.ne_lf
  quotechar_ne_cr := csvBreaks_ne.1
  quotechar_ne_lf := csvBreaks_ne.2.1

/-- `csv.excel` -/
def excel : CsvFormat := forced ⟨Timeutil.char ',', comma_ne_quote, comma_ne_cr, comma_ne_lf⟩

/-- The reader of a format, with `csv.field_size_limit`. -/
def dialect (f : CsvFormat) (fieldLimit : Nat) : Csv.Dialect CodePoint where
  delimiter := f.delimiter
  quote := f.quotechar
  cr := Timeutil.char '\r'
  lf := Timeutil.char '\n'
  fieldLimit := fieldLimit
  doublequote := f.doublequote
  skips c := f.skipinitialspace && c = Timeutil.char ' '
  delimiter_ne_quote := f.delimiter_ne_quotechar
  delimiter_ne_cr := f.delimiter_ne_cr
  delimiter_ne_lf := f.delimiter_ne_lf
  quote_ne_cr := f.quotechar_ne_cr
  quote_ne_lf := f.quotechar_ne_lf
  cr_ne_lf := csvBreaks_ne.2.2

end CsvFormat

structure CsvFileSource where
  path : Text
  delimiter : Option Delimiter := none
  maxFieldSize : Nat := 1048576

namespace CsvFileSource

/-- `CsvFileSource(path)` -/
def create (entry : FileEntry) (delimiter : Option Delimiter) : Except Exn CsvFileSource :=
  entry.resolved.map fun path => { path := path, delimiter := delimiter }

/-- A `csv.Error` -/
def csvError (s : CsvFileSource) : Csv.Error → Exn
  | .fieldLimit => ⟨.other "Error", s!"field larger than field limit ({s.maxFieldSize})"⟩
  | .newline => ⟨.other "Error", "new-line character seen in unquoted field - do you need to open the file with newline=''?"⟩

/-- `_dialect`; `sniff` is `csv.Sniffer().sniff`, `none` a `csv.Error` of it. -/
def dialect (sniff : Text → Option CsvFormat) (s : CsvFileSource) (headerLine : Text) : Csv.Dialect CodePoint :=
  (match s.delimiter with
    | some delimiter => CsvFormat.forced delimiter
    | none => (sniff headerLine).getD CsvFormat.excel).dialect s.maxFieldSize

/-- `h.strip().lstrip("\ufeff")` -/
def columnName (text : Text) : Text := text.strip.dropWhile (·.val = 0xFEFF)

/-- The names of the columns: the first row of the first line. -/
def readHeader (s : CsvFileSource) (d : Csv.Dialect CodePoint) (first : Text) : Except Exn (List Text) :=
  match Csv.rowsFrom d false {} [first] with
  | ([], some error) => .error (s.csvError error)
  | ([], none) | ([] :: _, _) => .error ⟨.ingestionError, "CSV file has no header row"⟩
  | (row :: _, _) => .ok (row.map columnName)

/-- A cell is not blank. -/
def isFilled (row : List Text) : Bool := row.any fun cell => cell.strip ≠ []

/-- `dict(zip(header, row))` -/
def zipRecord (header row : List Text) : Dict := (header.zip row).foldl (fun d item => d.set item.1 (.str item.2)) []

/-- The record of a row: the cells without a column go together. -/
def rowRecord (header row : List Text) : Dict :=
  if header.length < row.length then
    (zipRecord header row).set (Text.ofString "_extra") (.list ((row.drop header.length).map .str))
  else zipRecord header row

def readRow (s : CsvFileSource) (header : List Text) (r : SourceReading) (item : List Text × Nat) : SourceReading :=
  let (row, number) := item
  if isFilled row then
    { records := r.records ++ [{ payload := .mapping (rowRecord header row), source := s.path, lineNumber := some number,
                                 header := some header }]
      stats := { r.stats with recordsRead := r.stats.recordsRead + 1
                              bytesRead := r.stats.bytesRead + (row.map List.length).sum } }
  else { r with stats := { r.stats with skippedEmpty := r.stats.skippedEmpty + 1 } }

/-- `read`, once the file is open. -/
def readStream (sniff : Text → Option CsvFormat) (s : CsvFileSource) (stream : TextStream) :
    Except Exn Unit × SourceReading :=
  match stream.lines with
  | [] => (raised stream.raises, {})
  | first :: more =>
    if first.strip = [] then (.ok (), {})
    else
      let d := s.dialect sniff first
      match s.readHeader d first with
      | .error exn => (.error exn, {})
      | .ok header =>
        let (rows, error) := Csv.rowsFrom d stream.raises.isSome {} more
        (raised ((error.map s.csvError).or stream.raises), (rows.zipIdx 2).foldl (s.readRow header) {})

def read (sniff : Text → Option CsvFormat) (s : CsvFileSource) (entry : FileEntry) : Except Exn Unit × SourceReading :=
  match entry.stream with
  | .error exn => (.error exn, {})
  | .ok stream => s.readStream sniff stream

end CsvFileSource

/-! ## JSON -/

structure JsonArrayFileSource where
  path : Text
  inlineLimit : Nat := 256 * 1024 * 1024

namespace JsonArrayFileSource

/-- `JsonArrayFileSource(path)` -/
def create (entry : FileEntry) (inlineLimit : Nat) : Except Exn JsonArrayFileSource :=
  entry.resolved.map fun path => { path := path, inlineLimit := inlineLimit }

/-- Items that are no objects are counted. -/
def readItem (s : JsonArrayFileSource) (r : SourceReading) (item : Value × Nat) : SourceReading :=
  match item with
  | (.dict record, number) =>
    { records := r.records ++ [{ payload := .mapping record, source := s.path, lineNumber := some number }]
      stats := { r.stats with recordsRead := r.stats.recordsRead + 1 } }
  | _ => { r with stats := { r.stats with errors := r.stats.errors + 1 } }

/-- `json.loads`, and the exception it raises. -/
def decode (py : Python) (text : Text) : Except Exn Value :=
  match py.loads text with
  | .ok value => .ok value
  | .error name => .error (if name = "RecursionError" then ⟨.recursionError, ""⟩ else ⟨.valueError, ""⟩)

def read (py : Python) (s : JsonArrayFileSource) (entry : FileEntry) : Except Exn Unit × SourceReading :=
  match entry.size with
  | .error exn => (.error exn, {})
  | .ok size =>
    if s.inlineLimit < size then
      (.error ⟨.ingestionError, "JSON array file exceeds the in-memory limit; convert it to JSONL (one object per line) to stream it"⟩, {})
    else
      match entry.content.bind (decode py) with
      | .error exn =>
        (.error (if exn.isOSError || exn.isValueError then ⟨.ingestionError, "failed to read the JSON file"⟩ else exn), {})
      | .ok decoded =>
        let items := match decoded with
          | .list items => items
          | item => [item]
        (.ok (), (items.zipIdx 1).foldl s.readItem {})

end JsonArrayFileSource

/-! ## Directories -/

/-- The standard library, as far as files go. -/
structure FileLibrary extends Python where
  sniff : Text → Option CsvFormat
  /-- The length of `text.encode(encoding, "ignore")` -/
  encodedSize : Text → Nat

/-- The `file_kwargs` a source looks at, but for those that say how a file is opened. -/
structure FileOptions where
  delimiter : Option Delimiter := none
  maxLineBytes : Nat := 1048576
  skipHeader : Bool := false
  inlineLimit : Nat := 256 * 1024 * 1024

inductive OpenedSource where
  | file (s : FileSource)
  | csv (s : CsvFileSource)
  | json (s : JsonArrayFileSource)

def OpenedSource.read (lib : FileLibrary) (entry : FileEntry) : OpenedSource → Except Exn Unit × SourceReading
  | .file s => s.read lib.encodedSize entry
  | .csv s => s.read lib.sniff entry
  | .json s => s.read lib.toPython entry

/-- `TABULAR_EXTENSIONS` -/
def tabularExtensions : List Text := [".csv", ".tsv"].map Text.ofString

def openFileSource (lib : FileLibrary) (options : FileOptions) (path : FilePath) (entry : FileEntry) :
    Except Exn OpenedSource :=
  let suffix := path.effectiveSuffix lib.textCase
  if suffix ∈ tabularExtensions then (CsvFileSource.create entry options.delimiter).map .csv
  else if suffix = Text.ofString ".json" then (JsonArrayFileSource.create entry options.inlineLimit).map .json
  else (FileSource.create entry options.maxLineBytes options.skipHeader).map .file

/-- `iter_files`: `glob` gives the paths a pattern matches. -/
def iterFiles (glob : Text → List FilePath) (isFile isSymlink : FilePath → Bool) (patterns : List Text)
    (followSymlinks : Bool) : List FilePath :=
  let found := ((patterns.flatMap glob).filter fun path => isFile path && (followSymlinks || !isSymlink path)).dedup
  found.mergeSort (· ≤ ·)

theorem iterFiles_sorted (glob : Text → List FilePath) (isFile isSymlink : FilePath → Bool) (patterns : List Text)
    (followSymlinks : Bool) : (iterFiles glob isFile isSymlink patterns followSymlinks).Pairwise (· ≤ ·) := by
  have htrans : ∀ a b c : FilePath, decide (a ≤ b) = true → decide (b ≤ c) = true → decide (a ≤ c) = true := by
    intro a b c hab hbc
    rw [decide_eq_true_eq] at *
    exact hab.trans hbc
  have htotal : ∀ a b : FilePath, (decide (a ≤ b) || decide (b ≤ a)) = true := by
    intro a b
    rw [Bool.or_eq_true, decide_eq_true_eq, decide_eq_true_eq]
    exact le_total a b
  exact (List.pairwise_mergeSort htrans htotal _).imp fun h => of_decide_eq_true h

theorem iterFiles_nodup (glob : Text → List FilePath) (isFile isSymlink : FilePath → Bool) (patterns : List Text)
    (followSymlinks : Bool) : (iterFiles glob isFile isSymlink patterns followSymlinks).Nodup :=
  (List.mergeSort_perm _ _).nodup_iff.2 (List.nodup_dedup _)

structure DirectorySource where
  files : List FilePath
  sorted : files.Pairwise (· ≤ ·)
  nodup : files.Nodup

namespace DirectorySource

/-- The files of a directory in order, each of them once. -/
def ofGlob (glob : Text → List FilePath) (isFile isSymlink : FilePath → Bool) (patterns : List Text)
    (followSymlinks : Bool) : DirectorySource where
  files := iterFiles glob isFile isSymlink patterns followSymlinks
  sorted := iterFiles_sorted glob isFile isSymlink patterns followSymlinks
  nodup := iterFiles_nodup glob isFile isSymlink patterns followSymlinks

/-- What one file adds. Errors within a file are not counted. -/
def absorb (r s : SourceReading) : SourceReading where
  records := r.records ++ s.records
  stats :=
    { r.stats with
      recordsRead := r.stats.recordsRead + s.stats.recordsRead
      bytesRead := r.stats.bytesRead + s.stats.bytesRead
      skippedEmpty := r.stats.skippedEmpty + s.stats.skippedEmpty }

/-- `read`, with the files that are left. -/
def readFrom (lib : FileLibrary) (options : FileOptions) (entries : FilePath → FileEntry) :
    List FilePath → SourceReading → Except Exn Unit × SourceReading
  | [], r => (.ok (), r)
  | path :: paths, r =>
    match openFileSource lib options path (entries path) with
    | .error exn => (.error exn, r)
    | .ok source =>
      let (result, s) := source.read lib (entries path)
      match result with
      | .ok () => readFrom lib options entries paths (absorb r s)
      | .error exn =>
        if exn.cls = .ingestionError then
          let r := absorb r s
          readFrom lib options entries paths { r with stats := { r.stats with errors := r.stats.errors + 1 } }
        else (.error exn, absorb r s)

def read (lib : FileLibrary) (options : FileOptions) (entries : FilePath → FileEntry) (s : DirectorySource) :
    Except Exn Unit × SourceReading :=
  readFrom lib options entries s.files {}

end DirectorySource

end LogAnalytics
