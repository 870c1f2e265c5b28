import LogAnalytics.Parsers.Base
import LogAnalytics.Parsers.Coerce
/-!
# The text parsers

`PlainTextParser`, `SyslogParser` and `NginxErrorLogParser`. The compiled patterns are given
by what they find; what the parsers do with it is the source's.
-/

namespace LogAnalytics

def Text.rstripNewlines (t : Text) : Text :=
  (t.reverse.dropWhile fun c => c = Timeutil.char '\r' || c = Timeutil.char '\n').reverse

/-- `text.lstrip(chars)` -/
def Text.lstripOf (chars : Text) (t : Text) : Text := t.dropWhile (· ∈ chars)

/-- `text.strip(chars)` -/
def Text.stripOf (chars : Text) (t : Text) : Text := (lstripOf chars (lstripOf chars t).reverse).reverse

/-- What the patterns of the module find in a text. -/
structure TextPatterns where
  /-- `_LEADING_TIMESTAMP.match`: the timestamp and the end of the match. -/
  leadingTimestamp : Text → Option (Text × Nat)
  /-- `_LEVEL_TOKEN.search`: the level, where it starts and where it ends. -/
  levelToken : Text → Option (Text × Nat × Nat)
  /-- `_LOGGER_TOKEN.match`: the logger and the end of the match. -/
  loggerToken : Text → Option (Text × Nat)
  /-- `_INLINE_KV.findall` -/
  inlineKv : Text → List (Text × Text)

namespace PlainTextParser

variable (py : Python) (patterns : TextPatterns)

/-- One pass of the loop of `_absorb_inline_pairs`. -/
def absorbPair (fields : Fields) (pair : Text × Text) : Except Exn Fields :=
  let (key, value) := pair
  let key := py.textCase.lower key
  let canonical :=
    if key = Text.ofString "trace_id" ∨ key = Text.ofString "correlation_id" then Text.ofString "request_id" else key
  if canonical = Text.ofString "duration" ∨ canonical = Text.ofString "latency" then
    (coerceDurationMs py (.str value) none).map fun parsed =>
      { fields with responseTimeMs := fields.responseTimeMs.or parsed }
  else if canonical = Text.ofString "status" then
    if value ≠ [] ∧ value.all py.isDigit = true then
      (py.intOfDigits value).map fun status : Nat =>
        if 100 ≤ status ∧ status ≤ 599 then { fields with statusCode := fields.statusCode.or (some (Int.ofNat status)) }
        else fields
    else .ok fields
  else if canonical = Text.ofString "ip" then .ok { fields with ipAddress := fields.ipAddress.or (some value) }
  else if canonical = Text.ofString "user_id" then .ok { fields with userId := fields.userId.or (some value) }
  else .ok { fields with requestId := fields.requestId.or (some value) }

/-- The level in a text, and the text without it; a bracketed level takes its brackets along. -/
def takeLevel (remainder : Text) : LogLevel × Text :=
  match patterns.levelToken (remainder.take 120) with
  | none => (.unknown, remainder)
  | some (token, start, stop) =>
    let before := if start = 0 then [] else (remainder.drop (start - 1)).take 1
    let after := (remainder.drop stop).take 1
    let bracketed := 0 < start ∧ before.all (· ∈ Text.ofString "[(") = true ∧ after.all (· ∈ Text.ofString "])") = true
    let start := if bracketed then start - 1 else start
    let stop := if bracketed then stop + 1 else stop
    (LogLevel.ofText py token, Text.lstripOf (Text.ofString " :|-") (remainder.take start ++ remainder.drop stop))

def parse (raw : Text) (context : ParseContext) : Extraction :=
  let line := raw.rstripNewlines
  if line.strip = [] then .refuse ⟨.parseError, "empty line"⟩
  else
    let leading := patterns.leadingTimestamp line
    let remainder := line.drop ((leading.map (·.2)).getD 0)
    let (level, remainder) := takeLevel py patterns remainder
    let logger := patterns.loggerToken remainder
    let remainder := remainder.drop ((logger.map (·.2)).getD 0)
    let message := Text.stripOf (Text.ofString " \t:-|") remainder
    { stamps := leading.toList.map fun x => { value := .str x.1, defaultYear := context.defaultYear }
      outcome :=
        ((patterns.inlineKv (message.take 2048)).foldlM (absorbPair py)
          { level := level, message := message, logger := logger.map (·.1) }).map fun fields =>
            { toFields := fields, raw := raw } }

def parser : Parser where
  name := Text.ofString "plaintext"
  extract := parse py patterns

end PlainTextParser

/-- The groups of the two syslog patterns; those of the other pattern take no part. -/
structure SyslogMatch where
  pri : Option Text := none
  version : Option Text := none
  ts : Text
  host : Text
  /-- `app` or `tag` -/
  app : Text
  procid : Option Text := none
  pid : Option Text := none
  msgid : Option Text := none
  sd : Option Text := none
  msg : Text

namespace SyslogParser

/-- `_SEVERITY_TO_LEVEL` -/
def severityToLevel : List LogLevel := [.emergency, .alert, .critical, .error, .warning, .notice, .info, .debug]

/-- The level of a priority: its severity is `pri % 8`. -/
def priorityLevel (py : Python) (pri : Option Text) : Except Exn LogLevel :=
  match pri with
  | none | some [] => .ok .unknown
  | some digits => (py.intOfDigits digits).map fun pri => severityToLevel.getD (pri % 8) .unknown

/-- `parse`; `lineMatch` is `_RFC5424.match(line) or _RFC3164.match(line)`. -/
def parse (py : Python) (patterns : TextPatterns) (lineMatch : Text → Option SyslogMatch) (raw : Text)
    (context : ParseContext) : Extraction :=
  match lineMatch raw.rstripNewlines with
  | none => .refuse ⟨.parseError, "not a syslog line"⟩
  | some groups =>
    -- The priority is read before the timestamp.
    match priorityLevel py groups.pri with
    | .error exn => .refuse exn
    | .ok level =>
      let level :=
        if level = .unknown then
          ((patterns.levelToken (groups.msg.take 120)).map fun x => LogLevel.ofText py x.1).getD .unknown
        else level
      let metadata : Dict :=
        [("procid", groups.procid), ("pid", groups.pid), ("msgid", groups.msgid), ("sd", groups.sd),
          ("version", groups.version)].filterMap fun (key, value) =>
            (value.filter (· ≠ [])).map fun text => (Text.ofString key, .str text)
      { stamps := [{ value := .str groups.ts, defaultYear := context.defaultYear }]
        outcome := .ok
          { level := level, message := groups.msg.strip, hostname := some groups.host, service := some groups.app
            metadata := metadata, raw := raw } }

def parser (py : Python) (patterns : TextPatterns) (lineMatch : Text → Option SyslogMatch) : Parser where
  name := Text.ofString "syslog"
  extract := parse py patterns lineMatch

end SyslogParser

/-- The groups of `NginxErrorLogParser._PATTERN` the parser reads. -/
structure NginxErrorMatch where
  ts : Text
  level : Text
  pid : Text
  msg : Text

namespace NginxErrorLogParser

/-- `text.split(sep, 1)[0]` -/
def before (sep : Char) (text : Text) : Text := text.takeWhile (· ≠ Timeutil.char sep)

/-- `text.split(sep, 1)[1]`, if there is one. -/
def after? (sep : Char) (text : Text) : Option Text :=
  match text.dropWhile (· ≠ Timeutil.char sep) with
  | [] => none
  | _ :: rest => some rest

/-- One pass of the loop over the `key: value` tail. -/
def absorbTail (py : Python) (fields : Fields) (pair : Text × Text) : Fields :=
  let (key, value) := pair
  if key = Text.ofString "client" then { fields with ipAddress := some value }
  else if key = Text.ofString "server" then { fields with hostname := some value }
  else if key = Text.ofString "request" then
    match after? ' ' value with
    | none => fields
    | some rest =>
      { fields with
        httpMethod := HttpMethod.ofText py (before ' ' value), endpoint := some (before '?' (before ' ' rest)) }
  else if key = Text.ofString "referrer" then { fields with referrer := some value }
  else { fields with metadata := fields.metadata.set key (.str value) }

/-- `parse`; `lineMatch` is `_PATTERN.match` and `tail` is `_TAIL.findall`. -/
def parse (py : Python) (lineMatch : Text → Option NginxErrorMatch) (tail : Text → List (Text × Text)) (raw : Text)
    (_ : ParseContext) : Extraction :=
  match lineMatch raw.rstripNewlines with
  | none => .refuse ⟨.parseError, "not an nginx error line"⟩
  | some groups =>
    { stamps := [{ value := .str groups.ts }]
      outcome := .ok
        { toFields := (tail groups.msg).foldl (absorbTail py)
            { level := LogLevel.ofText py groups.level, message := groups.msg.strip
              logger := some (Text.ofString "nginx"), metadata := [(Text.ofString "pid", .str groups.pid)] }
          raw := raw } }

def parser (py : Python) (lineMatch : Text → Option NginxErrorMatch) (tail : Text → List (Text × Text)) : Parser where
  name := Text.ofString "nginx_error"
  extract := parse py lineMatch tail

end NginxErrorLogParser

end LogAnalytics
