import Mathlib.Data.List.Lex
import Mathlib.Order.Fin.Basic
import LogAnalytics.Lib.Digits
import LogAnalytics.Lib.Group
import LogAnalytics.Lib.Json
import LogAnalytics.Models.Value
import LogAnalytics.Validation.Dlq
/-!
# Rejections on disk

`DeadLetterQueue._write` with the files it appends to, one for each day, and `iter_rejected`, which
reads them back. A row is a line of JSON; its time is `str` of a datetime in UTC.
-/
open LogAnalytics.Lib LogAnalytics.Lib.Calendar

namespace LogAnalytics

/-! ## Rows -/

/-- `isoformat(sep)` of a time in UTC: microseconds are left out where there are none. -/
def Clock.isoformat (sep : Char) (c : Clock) : List Char :=
  let seconds := c.timeOfDay / 10 ^ 6
  let micros := c.timeOfDay % 10 ^ 6
  zeroPad 4 (yearOf c.day) ++ '-' :: (zeroPad 2 (monthOf c.day) ++ '-' :: (zeroPad 2 (dayOf c.day) ++ sep ::
    (zeroPad 2 (seconds / 3600) ++ ':' :: (zeroPad 2 (seconds / 60 % 60) ++ ':' :: (zeroPad 2 (seconds % 60) ++
      ((if micros = 0 then [] else '.' :: zeroPad 6 micros) ++ "+00:00".toList))))))

/-- Characters as text. -/
def Text.ofChars (chars : List Char) : Text := chars.map CodePoint.ofChar

/-- What the rows of a queue are written with. -/
structure DlqWriter (P : Type) where
  runId : Text
  /-- `json.dumps(partial, default=str)` -/
  dumps : P → Text
  dumps_ascii : ∀ p, (dumps p).isAscii = true

variable {P : Type}

namespace RejectedRecord

/-- `to_row`, with `default=str` applied to the time. -/
def toRow (w : DlqWriter P) (r : RejectedRecord P Clock) : List (Text × Json.Scalar) :=
  [(Text.ofString "rejected_at", .str (Text.ofChars (r.rejectedAt.isoformat ' '))),
    (Text.ofString "reason", .str (Text.ofString r.reason.toStr)),
    (Text.ofString "stage", .str (Text.ofString r.stage)),
    (Text.ofString "detail", .str r.detail),
    (Text.ofString "source", .str r.source),
    (Text.ofString "line_number", r.lineNumber.elim .null .nat),
    (Text.ofString "raw", .str r.raw),
    (Text.ofString "raw_hash", .str (Text.ofString r.rawHash)),
    (Text.ofString "partial", r.partialRow.elim .null fun p => .str (w.dumps p))]

/-- `json.dumps(rejected.to_row(), default=str, ensure_ascii=False) + "\n"`; an integer of more than
4300 digits is not written. -/
def line (w : DlqWriter P) (r : RejectedRecord P Clock) : Except Exn Text :=
  if r.lineNumber.all (· < textLimit) then .ok (Json.dumps (r.toRow w) ++ [CodePoint.ofChar '\n'])
  else .error ⟨.valueError, "Exceeds the limit (4300 digits) for integer string conversion; use sys.set_int_max_str_digits() to increase the limit"⟩

/-- The row as it is read back. -/
def toValue (w : DlqWriter P) (r : RejectedRecord P Clock) : Json.Value :=
  .obj ((r.toRow w).map fun member => (member.1, member.2.toValue))

end RejectedRecord

/-! ## Writing -/

/-- A `DeadLetterQueue` and its files below the root, what is buffered included. -/
structure DlqStore where
  counts : List (String × Nat) := []
  written : Nat := 0
  dropped : Nat := 0
  sinceFlush : Nat := 0
  handles : List FilePath := []
  files : List (FilePath × Text) := []

namespace DlqStore

/-- The file of a day, from `partition_values`. -/
def dayPath (w : DlqWriter P) (day : Nat) : FilePath :=
  [Text.ofString "year=" ++ Text.ofChars (zeroPad 4 (yearOf day)), Text.ofString "month=" ++ Text.ofChars (zeroPad 2 (monthOf day)),
    Text.ofString "day=" ++ Text.ofChars (zeroPad 2 (dayOf day)),
    Text.ofString "rejected-" ++ w.runId ++ Text.ofString ".jsonl"]

/-- Write to the end of a file, which is there afterwards. -/
def appendTo (path : FilePath) (text : Text) : List (FilePath × Text) → List (FilePath × Text)
  | [] => [(path, text)]
  | file :: files => if file.1 = path then (path, file.2 ++ text) :: files else file :: appendTo path text files

/-- `_handle_for` -/
def handleFor (s : DlqStore) (path : FilePath) : DlqStore :=
  if path ∈ s.handles then s else { s with handles := s.handles ++ [path], files := appendTo path [] s.files }

/-- `_write` -/
def write (c : DlqConfig P) (w : DlqWriter P) (s : DlqStore) (r : RejectedRecord P Clock) : Except Exn Unit × DlqStore :=
  let s := { s with counts := increment r.reason.toStr s.counts }
  if !c.enabled then (.ok (), s)
  else if c.maxRecords ≤ s.written then (.ok (), { s with dropped := s.dropped + 1 })
  else
    let path := dayPath w r.rejectedAt.day
    let s := s.handleFor path
    match r.line w with
    | .error exn => (.error exn, s)
    | .ok line =>
      if line.encodable then
        let sinceFlush := s.sinceFlush + 1
        (.ok (), { s with files := appendTo path line s.files
                          written := s.written + 1
                          sinceFlush := if DeadLetterQueue.flushEvery ≤ sinceFlush then 0 else sinceFlush })
      else (.error ⟨.unicodeEncodeError, "'utf-8' codec can't encode characters: surrogates not allowed"⟩, s)

def close (s : DlqStore) : DlqStore := { s with handles := [] }

/-! ## Reading -/

/-- `"rejected-*.jsonl"` -/
def isRejectedFile (path : FilePath) : Bool :=
  (Text.ofString "rejected-").isPrefixOf (path.getLastD []) && (Text.ofString ".jsonl").isSuffixOf (path.getLastD [])

def isBreak (c : CodePoint) : Bool := c = CodePoint.ofChar '\n' || c = CodePoint.ofChar '\r'

/-- The records in a file. Every line end counts; between the two characters of one is a blank line,
which is passed over like any other, as is a line that is not JSON. -/
def records (text : Text) : List Json.Value :=
  (text.splitOnP isBreak).filterMap fun line => if Text.strip line = [] then none else Json.loads (Text.strip line)

/-- Whether a record is recent enough: its time is compared as text. -/
def isSince (since : Option Clock) (record : Json.Value) : Except Exn Bool :=
  match since, record with
  | none, _ => .ok true
  | some since, .obj members =>
    match members.lookup (Text.ofString "rejected_at") with
    | some (.str stamp) => .ok !(stamp < Text.ofChars (since.isoformat 'T') : Bool)
    | _ => .ok true
  | some _, _ => .error ⟨.attributeError, "object has no attribute 'get'"⟩

/-- The records that are yielded, up to one that raises. -/
def yieldFrom (since : Option Clock) : List Json.Value → Except Exn Unit × List Json.Value
  | [] => (.ok (), [])
  | record :: records =>
    match isSince since record with
    | .error exn => (.error exn, [])
    | .ok recent =>
      let (result, yielded) := yieldFrom since records
      (result, if recent then record :: yielded else yielded)

/-- `iter_rejected` of the files below the root. -/
def iterRejected (since : Option Clock) (files : List (FilePath × Text)) : Except Exn Unit × List Json.Value :=
  let found := (files.filter fun file => isRejectedFile file.1).mergeSort fun a b => a.1 ≤ b.1
  yieldFrom since (found.flatMap fun file => records file.2)

end DlqStore

end LogAnalytics
