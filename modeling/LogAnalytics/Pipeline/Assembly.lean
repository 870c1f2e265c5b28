import LogAnalytics.Parsers.Text
import LogAnalytics.Validation.Validators
/-!
# Stages put together

The stages of a run from a parser, a transformation chain and a validator.
-/
open LogAnalytics.Lib.Calendar

namespace LogAnalytics.LogPipeline

/-- A parser, a transformation chain and a validator; transformation leaves the id and the
times of an event alone. -/
structure Setup where
  py : Python
  parser : Parser
  /-- `JsonLineParser().parse_record` -/
  jsonRecord : Dict → ParseContext → Extraction
  transform : EventBody → Except Exn EventBody
  repr : PyFloat → String
  settings : ValidationSettings

variable {K P : Type} (u : Setup) (base : Stages Dict LogEvent K P Clock)

namespace Setup

/-- The stages of a run. -/
def stages : Stages Dict LogEvent K P Clock :=
  { base with
    parser := u.parser.toLogParser u.py
    jsonLineParser := fun now record context => (u.jsonRecord record context).event u.py (Text.ofString "json") now context
    transform := fun event => (u.transform event.body).map fun body => { event with body := body }
    dumps := u.py.dumps
    validate := RecordValidator.validate u.py u.repr u.settings }

def extraction (record : RawRecord Dict) (context : ParseContext) : Extraction :=
  match record.payload with
  | .text line => u.parser.extract line context
  | .mapping m =>
    match u.parser.extractRecord with
    | some extract => extract m context
    | none => u.jsonRecord m context

/-- The parser that gets the record, by its name. -/
def parserName (record : RawRecord Dict) : Text :=
  match record.payload, u.parser.extractRecord with
  | .mapping _, none => Text.ofString "json"
  | _, _ => u.parser.name

theorem parsePayload_eq (now : Clock) (record : RawRecord Dict) (context : ParseContext) :
    parsePayload (u.stages base) now record context =
      (u.extraction record context).event u.py (u.parserName record) now context := by
  obtain ⟨payload, _, _, _⟩ := record
  cases payload with
  | text line => rfl
  | mapping m =>
    unfold parsePayload extraction parserName stages Parser.toLogParser
    cases u.parser.extractRecord <;> rfl

end Setup

/-! ## Small stages -/

/-- Enough of the library for records with neither numbers nor dates in their texts. -/
def plainPython (blake2b : Text → String) : Python where
  decimal c := if Text.isAsciiDigit c then some (c.val - 48) else none
  float _ := none
  reprFloat _ := []
  fromisoformat _ := none
  strptime _ _ := none
  dateutil _ _ := none
  ipAddress _ := none
  textCase := asciiCase
  isDigit := Text.isAsciiDigit
  isUnitLetter _ := false
  nearest q := q
  strDatetime _ := []
  reprContainer _ := .ok []
  isCanonicalKey _ := true
  unquote text := text
  isPrintable _ := true
  loads _ := .error "JSONDecodeError"
  dumps _ := .ok []
  csvRow text := .ok [text]
  blake2b := blake2b
  refusal := ""

/-- A digest that is the text itself, if that is ASCII. -/
def spelled (t : Text) : String := String.ofList (t.map fun c => Char.ofNat c.val)

/-- The stages a set-up leaves as they are; nothing is masked. -/
def plainStages : Stages Dict LogEvent String Unit Clock where
  parser := { parse := fun _ _ _ => .error ⟨.parseError, "empty line"⟩ }
  jsonLineParser _ _ _ := .error ⟨.parseError, "empty record"⟩
  dumps _ := .ok []
  transform := .ok
  validate _ _ := .ok { valid := true }
  key _ := none
  keepDuplicates := false
  dlq := { maskText := id, maskMapping := id, contentHash := fun _ => "", refusal := "", maxRecords := 100000, enabled := true }
  rawOf event := event.body.rawMessage
  sourceOf event := event.body.source
  partialOf _ := ()

theorem valid_seventh : Valid 2026 8 7 := by decide

/-- Noon of a day of August 2026. -/
def noon (day : Nat) (h : Valid 2026 8 day) : Clock :=
  ⟨dayNumber 2026 8 day * dayMicros + 12 * hourMicros, dayNumber_lt_end h (by decide) (by decide)⟩

end LogAnalytics.LogPipeline
