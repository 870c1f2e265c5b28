import Mathlib.Data.List.Lex
import Mathlib.Order.Fin.Basic
import LogAnalytics.Ingestion.Files
import LogAnalytics.Lib.Assoc
import LogAnalytics.Lib.CsvWriter
import LogAnalytics.Storage.Jsonl
/-!
# The CSV store

What `CsvStore` writes into a partition's file, a header and one line for each event, and what `read`
makes of the files: a dict for each line, with every value as a text. `csv.writer` may quote more
than it has to; what a reader of the same dialect needs is stated of it.
-/
open LogAnalytics.Lib LogAnalytics.Lib.Calendar

namespace LogAnalytics

/-- `LOG_EVENT_COLUMNS` -/
def logEventColumns : List String :=
  ["event_id", "timestamp", "ingested_at", "source", "source_type", "service", "hostname", "environment", "level",
    "logger", "message", "ip_address", "user_id", "request_id", "http_method", "endpoint", "status_code",
    "response_time_ms", "bytes_sent", "user_agent", "referrer", "metadata", "raw_message", "parser"]

/-- The module `csv`, as the store uses it, and `str` and `json.dumps`. -/
structure CsvLibrary where
  /-- `csv.field_size_limit()` -/
  fieldLimit : Nat
  /-- The names of the columns can be read. -/
  columns_fit : ∀ name ∈ logEventColumns, (Text.ofString name).length ≤ fieldLimit
  /-- `csv.writer(handle, lineterminator="\n")` -/
  writer : Csv.Writer (CsvFormat.excel.dialect fieldLimit)
  /-- `str` of a value that is no text. -/
  str : Value → Text
  dumps : Dict → Except Exn Text

/-- A row of `csv.DictReader`: the dict of the names that have a column, and what is behind the last of them. -/
structure CsvRecord where
  items : List (Text × Option Text)
  rest : List Text
  deriving DecidableEq

/-- `row.get(name)`: of the columns of one name the last is kept. -/
def CsvRecord.get (r : CsvRecord) (name : Text) : Option Text := (r.items.reverse.lookup name).join

namespace CsvStore

def isoText (moment : Datetime) : Except Exn Text := (toIso moment).map fun text => text.map CodePoint.ofChar

/-- A cell of `write`. `csv.writer` writes nothing for `None`. -/
def cell (lib : CsvLibrary) : Value → Except Exn Text
  | .none => .ok []
  | .str text => .ok text
  | .datetime moment => isoText moment
  | value => .ok (lib.str value)

def cells (lib : CsvLibrary) (event : LogEvent) : Except Exn (List Text) := do
  let row ← event.toRow lib.dumps
  logEventColumns.mapM fun column => cell lib ((row.lookup column).getD .none)

def header : List Text := logEventColumns.map Text.ofString

/-- The text of a file: the header of `_on_open`, and the rows. -/
def fileText (lib : CsvLibrary) (rows : List (List Text)) : Text := lib.writer.writeRows (header :: rows)

/-- `csv.DictReader`: the first row has the names, and empty rows are passed over. -/
def dictReader (lib : CsvLibrary) (text : Text) : List CsvRecord × Option Csv.Error :=
  match Csv.rows (CsvFormat.excel.dialect lib.fieldLimit) text with
  | ([], error) => ([], error)
  | (names :: rows, error) =>
    ((rows.filter (· ≠ [])).map fun row =>
      { items := names.zip (row.map some ++ List.replicate (names.length - row.length) none)
        rest := row.drop names.length }, error)

/-- The files, one after the other up to the first error. -/
def readFiles (lib : CsvLibrary) : List Text → List CsvRecord × Option Csv.Error
  | [] => ([], none)
  | text :: more =>
    match dictReader lib text with
    | (records, some error) => (records, some error)
    | (records, none) => (records ++ (readFiles lib more).1, (readFiles lib more).2)

def skips (first last : Option Text) (record : CsvRecord) : Bool :=
  match record.get (Text.ofString "timestamp") with
  | none | some [] => false
  | some stamp => first.any (stamp < ·) || last.any (· < stamp)

/-- `read`, with the error that ends it behind the last record, if the reader gets there. -/
def read (lib : CsvLibrary) (u : Unicode) (root : Path) (s : TextStore Path LogEvent) (start stop : Option Moment)
    (limit : Option Int) : Except Exn (List CsvRecord × Option Csv.Error) := do
  let parts ← Dataset.paths u "csv" s.files root (start.map Moment.datetime) (stop.map Moment.datetime)
  let first ← (start.map Moment.datetime).mapM isoText
  let last ← (stop.map Moment.datetime).mapM isoText
  let texts ← parts.mapM fun part => ((Dataset.rowsOf id s.files part).mapM (cells lib)).map (fileText lib)
  let (records, error) := readFiles lib texts
  return (yieldRows (skips first last) limit 0 records, error)

/-- The row of an event that has one. -/
def row (lib : CsvLibrary) (event : LogEvent) : List Text := (cells lib event).toOption.getD []

/-- What an event is read back as: every column with the text of its value. -/
def record (lib : CsvLibrary) (event : LogEvent) : CsvRecord :=
  { items := header.zip ((row lib event).map some), rest := [] }

/-- The event has a row whose cells the reader takes: a carriage return is in quotes, and no cell is too long. -/
structure Exportable (lib : CsvLibrary) (event : LogEvent) : Prop where
  cells : CsvStore.cells lib event = .ok (row lib event)
  guards : ∀ text ∈ row lib event, lib.writer.Guards text
  fits : ∀ text ∈ row lib event, text.length ≤ lib.fieldLimit

/-! ## One file -/

variable {lib : CsvLibrary} {event : LogEvent} {events : List LogEvent}

theorem Exportable.length_eq (h : Exportable lib event) : (row lib event).length = header.length := by
  obtain ⟨values, -, hrow⟩ := bind_ok.1 h.cells
  rw [← (mapM_ok.1 hrow).length_eq, header, List.length_map]

theorem Exportable.ne_nil (h : Exportable lib event) : row lib event ≠ [] := by
  intro hnil
  have hlen := h.length_eq
  rw [hnil] at hlen
  cases hlen

def config (u : Unicode) (root : Path) (keys : List PartitionKey) (flushEvery : Nat) : TextConfig Path LogEvent where
  unicode := u
  format := .csv
  partition := fun e => Dataset.directory root keys e.timestamp
  flushEvery := flushEvery

end CsvStore

end LogAnalytics
