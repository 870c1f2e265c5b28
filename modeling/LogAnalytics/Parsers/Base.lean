import LogAnalytics.Models.LogEvent
import LogAnalytics.Pipeline.Orchestrator
/-!
# Parsers

What every parser does to build an event. A parser works on a record alone but for the
timestamps it finds: these are read with the clock, in the order it comes to them, and the
last one is the event's. An `Extraction` is that much of a parse which the clock has no part
in; `_finalize` adds the defaults of the context and the present time where there is no other.
-/

namespace LogAnalytics

/-- A text or value a parser reads a timestamp from, with a configured format tried first. -/
structure Stamp where
  value : Value
  defaultYear : Option Nat := none
  format : Option String := none

/-- What a parser has gathered when it calls `_finalize`, less the timestamp. -/
structure Parsed extends Fields where
  environment : Option Environment := none
  /-- The verbatim record. -/
  raw : Text

structure Extraction where
  /-- The timestamps it reads before it ends. -/
  stamps : List Stamp := []
  outcome : Except Exn Parsed

/-- A parser; `extractRecord` is there when it is a `StructuredParser`. -/
structure Parser where
  name : Text
  extract : Text → ParseContext → Extraction
  extractRecord : Option (Dict → ParseContext → Extraction) := none

/-- `parse_timestamp`; a text that is not in the configured format is read like any other. -/
def Stamp.read (py : Python) (now : Clock) (stamp : Stamp) : Except Exn (Option Clock) :=
  match stamp.format, stamp.value with
  | some format, .str text =>
    match py.strptime text format with
    | some d => (Timeutil.ensureUtc d).map some
    | none => Timeutil.parseTimestamp py.toTimeParsers now stamp.defaultYear (.str text)
  | _, value => Timeutil.parseTimestamp py.toTimeParsers now stamp.defaultYear value

/-- Without a format of its own, what the value says and the clock completes. -/
theorem Stamp.read_eq (py : Python) (now : Clock) (value : Value) (year : Option Nat) :
    Stamp.read py now { value := value, defaultYear := year } =
      (Timeutil.reading py.toTimeParsers year value).at py.toTimeParsers now :=
  Timeutil.parseTimestamp_eq py.toTimeParsers now year value

/-- The fields of the event: those of the record, completed from the context. -/
def finalBody (name : Text) (inferred : Bool) (parsed : Parsed) (context : ParseContext) : EventBody :=
  let orDefault (value fallback : Option Text) : Option Text :=
    if value.getD [] = [] ∧ fallback.getD [] ≠ [] then fallback else value
  { toFields := { parsed.toFields with
      service := orDefault parsed.service context.defaultService
      hostname := orDefault parsed.hostname context.defaultHostname
      metadata :=
        if inferred then parsed.metadata.set (Text.ofString "timestamp_inferred") (.bool true) else parsed.metadata }
    source := context.source
    sourceType := context.sourceType
    environment := parsed.environment.getD context.environment
    rawMessage := if context.keepRaw then parsed.raw else []
    parser := name }

/-- `_finalize`: `timestamp` is what was read, if anything was; without one it is the present. -/
def finalize (py : Python) (name : Text) (now : Clock) (timestamp : Option Clock) (parsed : Parsed)
    (context : ParseContext) : Except Exn LogEvent :=
  LogEvent.build py now (timestamp.getD now) (finalBody name timestamp.isNone parsed context)

namespace Extraction

/-- A record the parser refuses. -/
def refuse (exn : Exn) : Extraction := { outcome := .error exn }

/-- The timestamp of the record, if it has one that can be read. -/
def timestamp (py : Python) (now : Clock) (x : Extraction) : Except Exn (Option Clock) :=
  x.stamps.foldlM (fun _ stamp => stamp.read py now) none

/-- The event made of a record. -/
def event (py : Python) (name : Text) (now : Clock) (context : ParseContext) (x : Extraction) : Except Exn LogEvent := do
  let timestamp ← x.timestamp py now
  let parsed ← x.outcome
  finalize py name now timestamp parsed context

theorem timestamp_singleton {py : Python} {now : Clock} {x : Extraction} {stamp : Stamp} (h : x.stamps = [stamp]) :
    x.timestamp py now = stamp.read py now := by
  rw [timestamp, h, List.foldlM_cons]
  simp

theorem event_ok_iff {py : Python} {name : Text} {now : Clock} {context : ParseContext} {x : Extraction} {event : LogEvent} :
    x.event py name now context = .ok event ↔
      ∃ read parsed, x.timestamp py now = .ok read ∧ x.outcome = .ok parsed ∧
        LogEvent.build py now (read.getD now) (finalBody name read.isNone parsed context) = .ok event := by
  unfold Extraction.event
  cases x.timestamp py now with
  | error exn => simp [bind, Except.bind]
  | ok read =>
    cases x.outcome with
    | error exn => simp [bind, Except.bind]
    | ok parsed => simp [bind, Except.bind, finalize]

end Extraction

/-- `parse` and, of a `StructuredParser`, `parse_record`. -/
def Parser.toLogParser (py : Python) (parser : Parser) : LogParser Dict LogEvent Clock where
  parse now raw context := (parser.extract raw context).event py parser.name now context
  parseRecord := parser.extractRecord.map fun extract now record context =>
    (extract record context).event py parser.name now context

end LogAnalytics
