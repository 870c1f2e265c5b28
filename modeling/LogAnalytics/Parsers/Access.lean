import LogAnalytics.Parsers.Text
/-!
# The access-log parser

`AccessLogParser.parse` for the common and the combined format with Nginx's timing tail. The
patterns are given by what they find.
-/

namespace LogAnalytics

/-- The groups of `_ACCESS_LOG`. -/
structure AccessMatch where
  ip : Text
  ident : Text
  user : Text
  time : Text
  request : Text
  status : Text
  bytes : Text
  referrer : Option Text := none
  agent : Option Text := none
  tail : Text := []

structure AccessPatterns where
  /-- `_ACCESS_LOG.match` -/
  accessLog : Text → Option AccessMatch
  /-- Group 1 of `_FORWARDED.search`. -/
  forwarded : Text → Option Text
  /-- `_TIMING_TAIL.findall` -/
  timingTail : Text → List Text

namespace AccessLogParser

variable (py : Python) (patterns : AccessPatterns)

/-- `int(text) if text.isdigit() else None` -/
def digits (text : Text) : Except Exn (Option Nat) :=
  if text ≠ [] ∧ text.all py.isDigit = true then (py.intOfDigits text).map some else .ok none

/-- `_LEVEL_FOR_STATUS` -/
def levelForStatus : Option Nat → LogLevel
  | none => .info
  | some status =>
    match status / 100 with
    | 4 => .warning
    | 5 => .error
    | _ => .info

/-- `text or None` -/
def orNone (text : Text) : Option Text := if text = [] then none else some text

/-- `_split_request`: method, endpoint and protocol. -/
def splitRequest (request : Text) : Option Text × Option Text × Option Text :=
  match NginxErrorLogParser.after? ' ' request with
  | none => (none, none, none)
  | some rest =>
    let method := orNone (py.textCase.upper ((NginxErrorLogParser.before ' ' request).take 16))
    let target := NginxErrorLogParser.before ' ' rest
    let protocol := (NginxErrorLogParser.after? ' ' rest).map (·.take 16)
    let path := NginxErrorLogParser.before '#' (NginxErrorLogParser.before '?' target)
    let path := ((py.unquote path).filter py.isPrintable).take 2048
    (method, some (if path = [] then [Timeutil.char '/'] else path), protocol)

/-- `_clean_optional` -/
def cleanOptional (value : Option Text) : Option Text :=
  value.filter fun text => text ≠ [] && text ≠ Text.ofString "-"

/-- `text or '-'` -/
def orDash (text : Option Text) : Text := (text.filter (· ≠ [])).getD (Text.ofString "-")

/-- `float(number) * 1000.0` of a number the pattern found; a `ValueError` is suppressed. -/
def timing (number : Text) : Option PyFloat := (py.float number).map (·.scale 1000)

/-- `_absorb_tail`: an address is already there, so the chain only goes to the metadata. -/
def absorbTail (tail : Text) (fields : Fields) : Fields :=
  let numbers := patterns.timingTail tail
  let metadata :=
    match patterns.forwarded tail with
    | some chain => fields.metadata.set (Text.ofString "forwarded_for") (.str chain)
    | none => fields.metadata
  let metadata :=
    match (numbers[1]?).bind (timing py) with
    | some ms => metadata.set (Text.ofString "upstream_time_ms") (.float ms)
    | none => metadata
  { fields with responseTimeMs := ((numbers[0]?).bind (timing py)).or fields.responseTimeMs, metadata := metadata }

def parse (raw : Text) (_ : ParseContext) : Extraction :=
  match patterns.accessLog raw.rstripNewlines with
  | none => .refuse ⟨.parseError, "not an access-log line"⟩
  | some groups =>
    match digits py groups.status with
    | .error exn => .refuse exn
    | .ok status =>
      let (method, endpoint, protocol) := splitRequest py groups.request
      let shownStatus := (status.filter (· ≠ 0)).map fun n => Text.ofString (toString n)
      let blank := Text.ofString " "
      let metadata : Dict :=
        ((protocol.filter (· ≠ [])).map fun text => (Text.ofString "protocol", Value.str text)).toList ++
          (if groups.ident ≠ [] ∧ groups.ident ≠ Text.ofString "-" then [(Text.ofString "ident", .str groups.ident)] else [])
      let tail := groups.tail.strip
      { stamps := [{ value := .str groups.time }]
        outcome := (digits py groups.bytes).map fun bytes =>
          let fields : Fields :=
            { level := levelForStatus status, ipAddress := some groups.ip
              httpMethod := method.bind (HttpMethod.ofText py), endpoint := endpoint
              statusCode := status.map Int.ofNat, bytesSent := bytes.map Int.ofNat
              referrer := cleanOptional groups.referrer, userAgent := cleanOptional groups.agent
              message := orDash method ++ blank ++ orDash endpoint ++ blank ++ orDash shownStatus
              userId := cleanOptional (some groups.user), metadata := metadata }
          { toFields := if tail = [] then fields else absorbTail py patterns tail fields, raw := raw } }

def parser : Parser where
  name := Text.ofString "access"
  extract := parse py patterns

end AccessLogParser

end LogAnalytics
