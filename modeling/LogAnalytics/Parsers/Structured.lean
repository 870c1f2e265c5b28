import LogAnalytics.Parsers.Base
import LogAnalytics.Parsers.Coerce
/-!
# Structured records

`flatten`, `map_structured_record` and `parse_record`, which JSON lines, CSV rows, `logfmt`
lines and database rows share, and the parsers that decode the container. The registered
parsers have no field map of their own.
-/

namespace LogAnalytics

/-- The canonical fields of `FIELD_ALIASES`. -/
inductive Canonical where
  | timestamp | level | message | service | hostname | environment | logger | ipAddress | userId | requestId
  | httpMethod | endpoint | statusCode | responseTimeMs | bytesSent | userAgent | referrer
  deriving DecidableEq, Repr

/-- `FIELD_ALIASES` -/
def fieldAliases : List (Canonical × List String) := [
  (.timestamp, ["timestamp", "time", "@timestamp", "ts", "datetime", "date", "eventtime", "event_time", "asctime",
    "created", "created_at", "logged_at", "_time"]),
  (.level, ["level", "severity", "levelname", "log_level", "loglevel", "priority", "status_level", "lvl", "level_name"]),
  (.message, ["message", "msg", "text", "body", "event", "description", "log", "detail", "short_message", "content"]),
  (.service, ["service", "service_name", "app", "application", "component", "container_name",
    "kubernetes_container_name", "program", "unit", "job"]),
  (.hostname, ["hostname", "host", "server", "node", "machine", "instance", "pod"]),
  (.environment, ["environment", "env", "stage", "deployment_env"]),
  (.logger, ["logger", "logger_name", "channel", "category", "source_module", "module"]),
  (.ipAddress, ["ip", "ip_address", "client_ip", "remote_addr", "remote_ip", "src_ip", "source_ip", "x_forwarded_for",
    "clientip", "caller_ip"]),
  (.userId, ["user_id", "user", "username", "uid", "account_id", "actor", "subject"]),
  (.requestId, ["request_id", "req_id", "correlation_id", "trace_id", "x_request_id", "traceid", "span_id"]),
  (.httpMethod, ["method", "http_method", "verb", "request_method"]),
  (.endpoint, ["path", "endpoint", "url", "uri", "route", "request_uri", "request_path"]),
  (.statusCode, ["status", "status_code", "http_status", "response_code", "code"]),
  (.responseTimeMs, ["response_time", "response_time_ms", "duration", "duration_ms", "latency", "latency_ms", "elapsed",
    "elapsed_ms", "took", "request_time", "upstream_time"]),
  (.bytesSent, ["bytes", "bytes_sent", "size", "content_length", "response_size", "body_bytes_sent"]),
  (.userAgent, ["user_agent", "useragent", "http_user_agent", "ua", "agent"]),
  (.referrer, ["referrer", "referer", "http_referer", "http_referrer"])]

/-- `_ALIAS_INDEX` -/
def aliasIndex : List (String × Canonical) := fieldAliases.flatMap fun (canonical, aliases) => aliases.map (·, canonical)

/-- No alias stands for two fields. -/
theorem aliasIndex_nodup : (aliasIndex.map (·.1)).Nodup := by
  decide +kernel

/-! ## Keys -/

def isLowerAlnum (c : CodePoint) : Bool := Text.isAsciiDigit c || (97 ≤ c.val && c.val ≤ 122)

def isAsciiUpper (c : CodePoint) : Bool := 65 ≤ c.val && c.val ≤ 90

/-- `_CAMEL_BOUNDARY.sub("_", key)` -/
def splitCamel : Text → Text
  | a :: b :: rest =>
    if isLowerAlnum a && isAsciiUpper b then a :: Timeutil.char '_' :: splitCamel (b :: rest) else a :: splitCamel (b :: rest)
  | t => t

/-- `_NORMALISE_KEY.sub("_", key)`; `inRun` within a run of other characters. -/
def foldRuns (inRun : Bool) : Text → Text
  | [] => []
  | c :: rest =>
    if isLowerAlnum c then c :: foldRuns false rest
    else if inRun then foldRuns true rest
    else Timeutil.char '_' :: foldRuns true rest

def normaliseKey (py : Python) (key : Text) : Text :=
  if py.isCanonicalKey key then key
  else
    let underscore := (· = Timeutil.char '_')
    (((foldRuns false (py.textCase.lower (splitCamel key))).dropWhile underscore).reverse.dropWhile underscore).reverse

/-! ## Flattening -/

/-- What a nested object adds to the record: its dotted keys, then its leaf names, where they
are free. -/
def absorbNested (name : Text) (out nested : Dict) : Dict :=
  let out := nested.foldl (fun out item => out.setdefault item.1 item.2) out
  nested.foldl (fun out item =>
    let leaf := item.1.drop (name.length + 1)
    if leaf = [] then out else out.setdefault leaf item.2) out

/-- `flatten`, with the depth that is left. -/
def flattenFrom : Nat → Text → Dict → Dict
  | depth, namePrefix, record =>
    record.foldl (fun out item =>
      let name := namePrefix ++ item.1
      match item.2, depth with
      | .dict nested, depth + 1 => absorbNested name out (flattenFrom depth (name ++ [Timeutil.char '_']) nested)
      | value, _ => out.set name value) []

/-- `MAX_FLATTEN_DEPTH` -/
def maxFlattenDepth : Nat := 4

def flatten (record : Dict) : Dict := flattenFrom maxFlattenDepth [] record

/-! ## Mapping -/

/-- What the loop of `map_structured_record` has gathered: values with the key they came under. -/
structure Mapped where
  fields : List (Canonical × Value × Text) := []
  metadata : Dict := []

namespace Mapped

def find? (m : Mapped) (canonical : Canonical) : Option (Value × Text) :=
  (m.fields.find? (·.1 = canonical)).map (·.2)

/-- `mapped.get(canonical)` -/
def get (m : Mapped) (canonical : Canonical) : Value := ((m.find? canonical).map (·.1)).getD .none

end Mapped

/-- `value is not None and value != ""` -/
def Value.isPresent : Value → Bool
  | .none => false
  | .str text => text ≠ []
  | _ => true

/-- One pass of the loop of `map_structured_record`. -/
def mapField (py : Python) (m : Mapped) (item : Text × Value) : Mapped :=
  let norm := normaliseKey py item.1
  match (aliasIndex.find? fun x => Text.ofString x.1 = norm).map (·.2) with
  | none => if item.2.isPresent then { m with metadata := m.metadata.set norm item.2 } else m
  | some canonical =>
    if (m.find? canonical).isSome then
      if item.2.isPresent then { m with metadata := m.metadata.set norm item.2 } else m
    else { m with fields := m.fields ++ [(canonical, item.2, norm)] }

def mapStructuredRecord (py : Python) (record : Dict) : Mapped := record.foldl (mapField py) {}

/-- `out[key] = str(value)` of a value that is there. -/
def textField (py : Python) (m : Mapped) (canonical : Canonical) : Except Exn (Option Text) :=
  if (m.get canonical).isPresent then (py.str (m.get canonical)).map some else .ok none

/-- `Environment(str(value).lower())`; a value that is none goes to the metadata. -/
def environmentField (py : Python) (m : Mapped) : Except Exn (Option Environment × Dict) :=
  match m.find? .environment with
  | none => .ok (none, m.metadata)
  | some (value, _) =>
    let raw := m.metadata.set (Text.ofString "environment_raw") value
    match py.str value with
    | .error exn => if exn.isValueError then .ok (none, raw) else .error exn
    | .ok text =>
      match Environment.members.find? fun env => Text.ofString env.toStr = py.textCase.lower text with
      | some env => .ok (some env, m.metadata)
      | none => .ok (none, raw)

def inStatusRange (status : Int) : Bool := 100 ≤ status && status ≤ 599

/-- `_coerce_mapped` behind the timestamp. -/
def coerceMapped (py : Python) (m : Mapped) : Except Exn (Fields × Option Environment) := do
  let level ← LogLevel.coerce py (m.get .level)
  let message ← textField py m .message
  let service ← textField py m .service
  let hostname ← textField py m .hostname
  let logger ← textField py m .logger
  let userId ← textField py m .userId
  let requestId ← textField py m .requestId
  let ipAddress ← textField py m .ipAddress
  let endpoint ← textField py m .endpoint
  let userAgent ← textField py m .userAgent
  let referrer ← textField py m .referrer
  let (environment, metadata) ← environmentField py m
  let httpMethod ← HttpMethod.coerce py (m.get .httpMethod)
  let status ← coerceInt py (m.get .statusCode)
  let metadata :=
    match status with
    | some status =>
      if inStatusRange status then metadata else metadata.set (Text.ofString "status_code_raw") (.int status)
    | none => metadata
  let duration ← coerceDurationMs py (m.get .responseTimeMs) ((m.find? .responseTimeMs).map (·.2))
  let size ← coerceInt py (m.get .bytesSent)
  return ({
    level := level, message := message.getD [], service := service, hostname := hostname, logger := logger
    userId := userId, requestId := requestId, ipAddress := ipAddress, endpoint := endpoint, userAgent := userAgent
    referrer := referrer, httpMethod := httpMethod, statusCode := status.filter inStatusRange
    responseTimeMs := duration, bytesSent := size.filter (0 ≤ ·), metadata := metadata }, environment)

/-! ## Parsing a record -/

/-- `f"{k}={v}"` for the values that can be shown. -/
def fallbackPart (py : Python) (item : Text × Value) : Except Exn (Option Text) :=
  match item.2 with
  | .none | .list _ | .dict _ => .ok none
  | value => (py.str value).map fun text => some (item.1 ++ Timeutil.char '=' :: text)

/-- `_fallback_message` -/
def fallbackMessage (py : Python) (flat : Dict) : Except Exn Text :=
  ((flat.take 12).mapM (fallbackPart py)).map fun parts =>
    ((parts.filterMap id).intersperse [Timeutil.char ' ']).flatten.take 4096

/-- The message, or one put together from the record. -/
def recordMessage (py : Python) (flat : Dict) (fields : Fields) : Except Exn Text :=
  if fields.message = [] then fallbackMessage py flat else .ok fields.message

/-- `raw_text`, or the record serialised again. -/
def rawText (py : Python) (context : ParseContext) (record : Dict) (given : Option Text) : Except Exn Text :=
  if context.keepRaw then
    match given with
    | some text => .ok text
    | none => py.dumps record
  else .ok []

/-- `parse_record` -/
def parseRecord (py : Python) (record : Dict) (context : ParseContext) (given : Option Text) : Extraction :=
  if record = [] then .refuse ⟨.parseError, "empty record"⟩
  else
    let flat := flatten record
    let m := mapStructuredRecord py flat
    { stamps := (m.find? .timestamp).toList.map fun x => { value := x.1 }
      outcome := do
        let (fields, environment) ← coerceMapped py m
        let message ← recordMessage py flat fields
        let raw ← rawText py context record given
        return { toFields := { fields with message := message }, environment := environment, raw := raw } }

namespace JsonLineParser

def parse (py : Python) (raw : Text) (context : ParseContext) : Extraction :=
  let text := (raw.strip.reverse.dropWhile (· = Timeutil.char ',')).reverse
  if text = [] then .refuse ⟨.parseError, "empty line"⟩
  else
    match py.loads text with
    | .error cls => .refuse ⟨.parseError, s!"invalid JSON: {cls}"⟩
    | .ok (.dict record) => parseRecord py record context (some raw)
    | .ok _ => .refuse ⟨.parseError, "JSON record is not an object"⟩

def parser (py : Python) : Parser where
  name := Text.ofString "json"
  extract := parse py
  extractRecord := some fun record context => parseRecord py record context none

end JsonLineParser

namespace CsvRowParser

def parse (py : Python) (raw : Text) (context : ParseContext) : Extraction :=
  match context.header with
  | none | some [] => .refuse ⟨.parseError, "CSV parsing requires a header in the parse context"⟩
  | some header =>
    match py.csvRow raw with
    | .error exn => .refuse ⟨.parseError, s!"malformed CSV row: {exn}"⟩
    | .ok row =>
      parseRecord py ((header.zip row).foldl (fun record x => Dict.set record x.1 (.str x.2)) []) context none

def parser (py : Python) : Parser where
  name := Text.ofString "csv"
  extract := parse py
  extractRecord := some fun record context => parseRecord py record context none

end CsvRowParser

namespace KeyValueParser

/-- The first group that is not empty. -/
def tokenValue (quoted single bare : Text) : Text :=
  if quoted ≠ [] then quoted else if single ≠ [] then single else bare

/-- `parse`; `tokens` is what `_TOKEN.findall` finds: the key and the three groups. -/
def parse (py : Python) (tokens : Text → List (Text × Text × Text × Text)) (raw : Text) (context : ParseContext) :
    Extraction :=
  let found := tokens raw
  if found.length < 2 then .refuse ⟨.parseError, "not a key=value line"⟩
  else
    parseRecord py
      (found.foldl (fun record (key, quoted, single, bare) => Dict.set record key (.str (tokenValue quoted single bare))) [])
      context none

def parser (py : Python) (tokens : Text → List (Text × Text × Text × Text)) : Parser where
  name := Text.ofString "keyvalue"
  extract := parse py tokens
  extractRecord := some fun record context => parseRecord py record context none

end KeyValueParser

end LogAnalytics
