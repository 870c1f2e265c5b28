import LogAnalytics.Parsers.Structured
import LogAnalytics.Parsers.Text
/-!
# Configured parsers

`RegexParser.parse`: the named groups of a configured pattern, assigned to the canonical
fields one after the other. What one of them raises ends the parse, and the timestamps of the
groups before it have been read by then.
-/

namespace LogAnalytics

/-- A `CustomParserSpec` with its compiled pattern. -/
structure CustomParserSpec where
  name : String
  /-- The `groupdict` of a match, in the order of the groups. -/
  lineMatch : Text → Option (List (Text × Option Text))
  /-- `field_map`, with normalised keys. -/
  fieldMap : List (Text × Text) := []
  timestampFormat : Option String := none
  defaultLevel : Text := Text.ofString "UNKNOWN"
  metadataGroups : List Text := []

namespace RegexParser

/-- What the loop of `parse` has assigned. -/
structure Assigned where
  stamps : List Stamp := []
  fields : Fields

variable (py : Python) (spec : CustomParserSpec)

/-- The fields that take the text of a group as it is. -/
def setText (fields : Fields) (canonical value : Text) : Option Fields :=
  let is (name : String) : Prop := canonical = Text.ofString name
  if is "message" then some { fields with message := value }
  else if is "service" then some { fields with service := some value }
  else if is "hostname" then some { fields with hostname := some value }
  else if is "logger" then some { fields with logger := some value }
  else if is "ip_address" then some { fields with ipAddress := some value }
  else if is "user_id" then some { fields with userId := some value }
  else if is "request_id" then some { fields with requestId := some value }
  else if is "endpoint" then some { fields with endpoint := some value }
  else if is "user_agent" then some { fields with userAgent := some value }
  else if is "referrer" then some { fields with referrer := some value }
  else if is "http_method" then some { fields with httpMethod := HttpMethod.ofText py value }
  else if is "level" then some { fields with level := LogLevel.ofText py value }
  else none

/-- `_assign` -/
def assign (a : Assigned) (canonical value : Text) : Except Exn Assigned :=
  let is (name : String) : Prop := canonical = Text.ofString name
  let oneOf (names : List String) : Prop := canonical ∈ names.map Text.ofString
  if is "timestamp" then .ok { a with stamps := a.stamps ++ [{ value := .str value, format := spec.timestampFormat }] }
  else if is "status_code" then
    (coerceInt py (.str value)).map fun status =>
      { a with fields := { a.fields with statusCode := (status.filter inStatusRange).or a.fields.statusCode } }
  else if oneOf ["response_time_ms", "response_time", "duration"] then
    (coerceDurationMs py (.str value) (some canonical)).map fun duration =>
      { a with fields := { a.fields with responseTimeMs := duration.or a.fields.responseTimeMs } }
  else if oneOf ["bytes_sent", "bytes"] then
    (coerceInt py (.str value)).map fun size =>
      { a with fields := { a.fields with bytesSent := (size.filter (0 ≤ ·)).or a.fields.bytesSent } }
  else
    match setText py a.fields canonical value with
    | some fields => .ok { a with fields := fields }
    | none => .ok { a with fields := { a.fields with metadata := a.fields.metadata.set canonical (.str value) } }

/-- One pass of the loop of `parse`. -/
def step (a : Assigned) (group value : Text) : Except Exn Assigned :=
  let norm := normaliseKey py group
  let canonical := ((spec.fieldMap.find? (·.1 = norm)).map (·.2)).getD norm
  if group ∈ spec.metadataGroups then
    .ok { a with fields := { a.fields with metadata := a.fields.metadata.set canonical (.str value) } }
  else assign py spec a canonical value

/-- The loop of `parse` over the groups that took part. -/
def absorb (raw : Text) : List (Text × Text) → Assigned → Extraction
  | [], a => { stamps := a.stamps, outcome := .ok { toFields := a.fields, raw := raw } }
  | (group, value) :: rest, a =>
    match step py spec a group value with
    | .error exn => { stamps := a.stamps, outcome := .error exn }
    | .ok a => absorb raw rest a

def parse (raw : Text) (_ : ParseContext) : Extraction :=
  match spec.lineMatch raw.rstripNewlines with
  | none => .refuse ⟨.parseError, s!"line does not match parser '{spec.name}'"⟩
  | some groups =>
    absorb py spec raw (groups.filterMap fun (group, value) => value.map (group, ·))
      { fields := { level := LogLevel.ofText py spec.defaultLevel } }

def parser : Parser where
  name := Text.ofString spec.name
  extract := parse py spec

end RegexParser

end LogAnalytics
