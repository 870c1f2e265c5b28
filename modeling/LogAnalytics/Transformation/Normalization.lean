import LogAnalytics.Lib.Replace
import LogAnalytics.MaskingRules
import LogAnalytics.Models.LogEvent
import LogAnalytics.Parsers.Text
/-!
# Normalisation

`RecordNormalizer.normalise`: names in one spelling, an environment where a name tells it, and
endpoints with their identifiers replaced by placeholders. The message is not looked at.
-/
open LogAnalytics.Lib

namespace LogAnalytics

/-- What `ipaddress.ip_address` says of an address. -/
structure IpFlags where
  isLoopback : Bool
  isPrivate : Bool
  isReserved : Bool
  isMulticast : Bool
  isLinkLocal : Bool

/-- What normalisation asks of the standard library. -/
structure NormalizerData where
  /-- What `\d` matches. -/
  tables : CharTables
  textCase : TextCase
  /-- `ipaddress.ip_address`; `none` is a `ValueError`. -/
  ipAddress : Text → Option IpFlags

/-! ## Names -/

/-- `text.rstrip(chars)` -/
def Text.rstripOf (chars : Text) (t : Text) : Text := (lstripOf chars t.reverse).reverse

/-- `text or None` -/
def Text.orNone (t : Text) : Option Text := if t = [] then none else some t

def isSlugChar (c : CodePoint) : Bool := MaskingRules.isAsciiLower c || MaskingRules.isAsciiDigit c

def isChar (ch : Char) (c : CodePoint) : Bool := c = CodePoint.ofChar ch

variable (d : NormalizerData)

def normaliseService (name : Option Text) : Option Text :=
  name.bind fun name =>
    if name = [] then none
    else
      let slug := Text.stripOf (Text.ofString "-") (replaceRuns (!isSlugChar ·) [CodePoint.ofChar '-'] false
        (d.textCase.lower name.strip))
      Text.orNone (slug.take 255)

def normaliseHostname (host : Option Text) : Option Text :=
  host.bind fun host =>
    if host = [] then none
    else
      let text := Text.rstripOf (Text.ofString ".") (d.textCase.lower host.strip)
      -- A port; more colons are an address.
      let text :=
        if text.count (CodePoint.ofChar ':') = 1 ∧ text.head? ≠ some (CodePoint.ofChar '[') then
          text.takeWhile (!isChar ':' ·)
        else text
      Text.orNone (text.take 255)

/-- `_ENV_SUFFIXES` -/
def envSuffixes : List (Text × Environment) := [
  ("prod", Environment.production), ("production", .production), ("live", .production), ("stg", .staging),
  ("stage", .staging), ("staging", .staging), ("uat", .staging), ("dev", .development), ("develop", .development),
  ("development", .development), ("local", .development), ("test", .test), ("qa", .test)].map fun item =>
    (Text.ofString item.1, item.2)

/-- The first hint with a token that names an environment. The pieces within a run are empty and
name none. -/
def inferEnvironment (hints : List (Option Text)) : Environment :=
  (hints.findSome? fun hint => hint.bind fun text =>
    ((d.textCase.lower text).splitOnP (!isSlugChar ·)).findSome? (List.lookup · envSuffixes)).getD .unknown

/-! ## Endpoints -/

/-- `^..$`, which matches before a newline at the end too. -/
def fullyMatches (p : Text → Bool) (segment : Text) : Bool :=
  p segment || (segment.getLast?.any (isChar '\n') && p segment.dropLast)

def isHexDigit (c : CodePoint) : Bool :=
  MaskingRules.isAsciiDigit c || (65 ≤ c.val && c.val ≤ 70) || (97 ≤ c.val && c.val ≤ 102)

/-- `_VERSION` -/
def isVersion : Text → Bool
  | [] => false
  | c :: digits =>
    (isChar 'v' c || isChar 'V' c) && (1 ≤ digits.length && digits.length ≤ 3) &&
      digits.all (MaskingRules.isDigit d.tables)

/-- `_UUID` -/
def isUuid (segment : Text) : Bool :=
  let groups := segment.splitOn (CodePoint.ofChar '-')
  groups.map List.length = [8, 4, 4, 4, 12] && groups.all (·.all isHexDigit)

/-- `_NUMERIC` -/
def isNumeric (segment : Text) : Bool :=
  (1 ≤ segment.length && segment.length ≤ 19) && segment.all (MaskingRules.isDigit d.tables)

/-- `_HEX` -/
def isHexId (segment : Text) : Bool := (16 ≤ segment.length && segment.length ≤ 64) && segment.all isHexDigit

/-- `_EMAILISH` -/
def isEmailish (segment : Text) : Bool :=
  match segment.splitOn (CodePoint.ofChar '@') with
  | [user, domain] =>
    (1 ≤ user.length && user.length ≤ 64) && (1 ≤ domain.length && domain.length ≤ 255) &&
      segment.all (!isChar '/' ·)
  | _ => false

/-- `_MIXED_ID` -/
def isMixedId (segment : Text) : Bool :=
  (12 ≤ segment.length && segment.length ≤ 64) && segment.any (MaskingRules.isDigit d.tables) &&
    segment.all fun c => MaskingRules.isAsciiAlnum c || isChar '_' c || isChar '-' c

/-- A segment of a path, or the placeholder for it. -/
def templateSegment (segment : Text) : Text :=
  if segment = [] then segment
  else if fullyMatches (isVersion d) segment then d.textCase.lower segment
  else if fullyMatches isUuid segment then Text.ofString "\x7buuid\x7d"
  else if fullyMatches (isNumeric d) segment then Text.ofString "\x7bid\x7d"
  else if fullyMatches isHexId segment then Text.ofString "\x7bhash\x7d"
  else if fullyMatches isEmailish segment then Text.ofString "\x7bemail\x7d"
  else if fullyMatches (isMixedId d) segment then Text.ofString "\x7btoken\x7d"
  else (d.textCase.lower segment).take 64

/-- `MAX_PATH_SEGMENTS` -/
def maxPathSegments : Nat := 24

def slash : CodePoint := CodePoint.ofChar '/'

/-- `text or "/"` -/
def orSlash (text : Text) : Text := if text = [] then [slash] else text

def templateEndpoint (maxSegments : Nat) (path : Option Text) : Option Text :=
  path.bind fun path =>
    if path = [] then none
    else
      let path := if path.head? = some slash then path else slash :: path
      let segments := (path.splitOn slash).take (maxSegments + 1)
      let templated := orSlash ([slash].intercalate (segments.map (templateSegment d)))
      let templated :=
        if 1 < templated.length ∧ templated.getLast? = some slash then Text.rstripOf [slash] templated else templated
      some (orSlash templated)

/-! ## Clients -/

/-- `_UA_FAMILIES` -/
def uaFamilies : List (Text × Text) := [
  ("edg", "Edge"), ("opr", "Opera"), ("chrome", "Chrome"), ("firefox", "Firefox"), ("safari", "Safari"),
  ("msie", "IE"), ("trident", "IE"), ("curl", "curl"), ("wget", "wget"), ("python-requests", "python-requests"),
  ("httpie", "HTTPie"), ("postman", "Postman"), ("go-http-client", "Go"), ("java", "Java"), ("okhttp", "OkHttp"),
  ("bot", "Bot"), ("crawler", "Bot"), ("spider", "Bot")].map fun item => (Text.ofString item.1, Text.ofString item.2)

def userAgentFamily (userAgent : Option Text) : Option Text :=
  userAgent.bind fun text =>
    if text = [] then none
    else
      let lowered := d.textCase.lower text
      some (((uaFamilies.find? fun item => item.1 <:+: lowered).map (·.2)).getD (Text.ofString "Other"))

def classifyIp (ip : Option Text) : Option Text :=
  ip.bind fun text =>
    if text = [] then none
    else (d.ipAddress text).map fun address => Text.ofString <|
      if address.isLoopback then "loopback"
      else if address.isPrivate then "private"
      else if address.isReserved || address.isMulticast || address.isLinkLocal then "reserved"
      else "public"

/-! ## The normaliser -/

structure RecordNormalizer where
  templateEndpoints : Bool := true
  inferEnvironmentFromHost : Bool := true
  defaultService : Option Text := none

namespace RecordNormalizer

variable (r : RecordNormalizer)

/-- A value that is there, under its key. -/
def noted (key : String) (value : Option Text) (metadata : Dict) : Dict :=
  value.elim metadata fun text => metadata.set (Text.ofString key) (.str text)

/-- The endpoint it is grouped under, if that is another one. -/
def templated (endpoint : Option Text) : Option Text :=
  if r.templateEndpoints ∧ endpoint.any (· ≠ []) then
    (templateEndpoint d maxPathSegments endpoint).filter fun text => text ≠ [] ∧ some text ≠ endpoint
  else none

def normalise (event : LogEvent) : LogEvent :=
  let b := event.body
  let service := (normaliseService d b.service).or (normaliseService d r.defaultService)
  let hostname := normaliseHostname d b.hostname
  let endpoint := r.templated d b.endpoint
  let metadata := if endpoint.isSome then noted "endpoint_raw" b.endpoint b.metadata else b.metadata
  { event with
    body := { b with
      service := service
      hostname := hostname
      environment :=
        if r.inferEnvironmentFromHost ∧ b.environment = .unknown then
          inferEnvironment d [hostname, service, some b.source]
        else b.environment
      endpoint := endpoint.or b.endpoint
      metadata := noted "ip_class" (classifyIp d b.ipAddress) (noted "ua_family" (userAgentFamily d b.userAgent) metadata) } }

end RecordNormalizer

end LogAnalytics
