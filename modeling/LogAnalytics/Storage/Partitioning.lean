import Mathlib.Data.List.Sort
import Mathlib.Data.List.Dedup
import Mathlib.Logic.Function.Basic
import LogAnalytics.Lib.Digits
import LogAnalytics.Lib.Loops
import LogAnalytics.Paths
import LogAnalytics.Timeutil
/-!
# Hive-style partitioning

`partition_path` spells the calendar fields of an event time as directory names;
`partition_datetime` and `_partition_end` read an interval back from the names, and
`prune_partitions` compares it with a time range. A path is its parts; of the file system only
the regular files below the root matter.
-/
open LogAnalytics.Lib LogAnalytics.Lib.Calendar

namespace LogAnalytics

/-- `PARTITION_KEYS` -/
inductive PartitionKey where
  | year
  | month
  | day
  | hour
  deriving DecidableEq, Repr

namespace PartitionKey

def name : PartitionKey → String
  | year => "year"
  | month => "month"
  | day => "day"
  | hour => "hour"

def all : List PartitionKey := [year, month, day, hour]

def ofName? (name : String) : Option PartitionKey := all.find? fun key => key.name = name

/-- The calendar field of a UTC time. -/
def field (key : PartitionKey) (utc : Clock) : Nat :=
  match key with
  | year => yearOf utc.day
  | month => monthOf utc.day
  | day => dayOf utc.day
  | hour => utc.hour

/-- The width `partition_values` formats it in. -/
def width : PartitionKey → Nat
  | year => 4
  | _ => 2

end PartitionKey

namespace Partitioning

def partitionValues (moment : Datetime) : Except Exn (PartitionKey → String) :=
  (Timeutil.ensureUtc moment).map fun utc key => String.ofList (zeroPad key.width (key.field utc))

/-- One pass of the loop of `partition_path`; the message quotes the key as `repr` does a
plain string. -/
def appendKey (values : PartitionKey → String) (path : Path) (key : String) : Except Exn Path :=
  match PartitionKey.ofName? key with
  | none =>
    .error ⟨.keyError, s!"unsupported partition key '{key}'; choose from ('year', 'month', 'day', 'hour')"⟩
  | some k => .ok (path ++ [s!"{key}={values k}"])

def partitionPath (root : Path) (moment : Datetime) (keys : List String) : Except Exn Path := do
  let utc ← Timeutil.ensureUtc moment
  let values ← partitionValues { clock := utc }
  keys.foldlM (appendKey values) root

variable (u : Unicode)

/-- `int(digits)` -/
def intOf (digits : List Char) : Nat := digits.foldl (fun n c => 10 * n + (u.decimal c).getD 0) 0

/-- `(\d{2,4})$`, which also matches before a final newline. -/
def matchDigits (text : List Char) : Option Nat :=
  let digits := if text.getLast? = some '\n' then text.dropLast else text
  if 2 ≤ digits.length ∧ digits.length ≤ 4 ∧ digits.all fun c => (u.decimal c).isSome then some (intOf u digits)
  else none

/-- `_PARTITION_SEGMENT.match`: what it captures. -/
def parseSegment (part : String) : Option (PartitionKey × Nat) :=
  match PartitionKey.ofName? (String.ofList (part.toList.takeWhile (· ≠ '='))), part.toList.dropWhile (· ≠ '=') with
  | some key, _ :: digits => (matchDigits u digits).map (key, ·)
  | _, _ => none

/-- One pass of the loop of `parse_partition`. -/
def record (found : PartitionKey → Option Nat) (part : String) : PartitionKey → Option Nat :=
  match parseSegment u part with
  | some (key, value) => Function.update found key (some value)
  | none => found

def parsePartition (path : Path) : PartitionKey → Option Nat := path.foldl (record u) fun _ => none

def partitionDatetime (path : Path) : Except Exn (Option Clock) :=
  let values := parsePartition u path
  match values .year with
  | none => .ok none
  | some year =>
    (datetime year ((values .month).getD 1) ((values .day).getD 1) ((values .hour).getD 0)).map some

/-- The directories `iter_partitions` finds: those with a file right in them and a name that
is a partition segment. -/
def leaves (files : List Path) (root : Path) : List Path :=
  ((files.filter fun file => root.isPrefixOf file && root.length < file.length).map List.dropLast).filter (fun dir =>
    dir.getLast?.any fun name => (parseSegment u name).isSome) |>.dedup

/-- `str(path)` -/
def pathStr : Path → String
  | "/" :: parts => "/" ++ "/".intercalate parts
  | parts => "/".intercalate parts

/-- The order of `_chronological_key`: by start, directories without one last, by name. -/
def chronoLe (a b : Option Clock × Path) : Bool :=
  match a.1, b.1 with
  | some s, some t => s ≤ t
  | some _, none => true
  | none, some _ => false
  | none, none => pathStr a.2 ≤ pathStr b.2

def iterPartitions (files : List Path) (root : Path) : Except Exn (List Path) := do
  let keyed ← (leaves u files root).mapM fun leaf => (partitionDatetime u leaf).map (·, leaf)
  return (keyed.insertionSort (chronoLe · ·)).map (·.2)

/-- `datetime.replace` of the date. -/
def replaceDate (c : Clock) (y m d : Nat) : Except Exn Clock := Clock.ofDate y m d c.timeOfDay c.timeOfDay_lt

/-- `_partition_end` -/
def partitionEnd (start : Clock) (values : PartitionKey → Option Nat) : Except Exn Clock :=
  if (values .hour).isSome then start.add hourMicros
  else if (values .day).isSome then start.add dayMicros
  else if (values .month).isSome then do
    let late ← replaceDate start (yearOf start.day) (monthOf start.day) 28
    let next ← late.add (4 * dayMicros)
    replaceDate next (yearOf next.day) (monthOf next.day) 1
  else replaceDate start (yearOf start.day + 1) (monthOf start.day) (dayOf start.day)

/-- Whether the loop of `prune_partitions` selects the partition. -/
def selects (start stop : Option Clock) (partition : Path) : Except Exn Bool := do
  match ← partitionDatetime u partition with
  | none => return true
  | some moment =>
    let spanEnd ← partitionEnd moment (parsePartition u partition)
    return !(start.any fun s => spanEnd ≤ s) && !(stop.any fun e => e < moment)

def prunePartitions (files : List Path) (root : Path) (start stop : Option Datetime) : Except Exn (List Path) := do
  let partitions ← iterPartitions u files root
  if start = none ∧ stop = none then return partitions
  let startUtc ← start.mapM Timeutil.ensureUtc
  let stopUtc ← stop.mapM Timeutil.ensureUtc
  selectM (selects u startUtc stopUtc) partitions

end Partitioning

end LogAnalytics
