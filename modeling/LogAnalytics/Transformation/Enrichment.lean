import LogAnalytics.Masking
import LogAnalytics.Models.LogEvent
/-!
# Enrichment

`RecordEnricher.enrich`, the last stage before a record is stored, and the row it is stored as.
The texts that are masked are listed by hand: the message, the user, the endpoint, the user
agent, the referrer and the raw line. `source`, `service`, `hostname`, `logger` and `request_id`
are stored as they came.
-/

namespace LogAnalytics

/-! ## The stored row -/

/-- `_SEVERITY` -/
def LogLevel.severity : LogLevel → Nat
  | .trace => 5
  | .debug => 10
  | .info => 20
  | .notice => 25
  | .warning => 30
  | .error => 40
  | .critical => 50
  | .alert => 60
  | .emergency => 70
  | .unknown => 0

def LogLevel.isError (level : LogLevel) : Bool := LogLevel.error.severity ≤ level.severity

def EventBody.isError (b : EventBody) : Bool := b.level.isError || b.statusCode.any (500 ≤ ·)

/-- A text or `None`. -/
def Value.ofText : Option Text → Value
  | some text => .str text
  | Option.none => .none

/-- `json.dumps(self.metadata, default=str) if self.metadata else None` -/
def metadataColumn (dumps : Dict → Except Exn Text) (metadata : Dict) : Except Exn Value :=
  if metadata.isEmpty then .ok .none else (dumps metadata).map .str

def LogEvent.toRow (dumps : Dict → Except Exn Text) (event : LogEvent) : Except Exn (List (String × Value)) :=
  let b := event.body
  (metadataColumn dumps b.metadata).map fun metadata => [
    ("event_id", .str (Text.ofString event.eventId)),
    ("timestamp", .datetime { clock := event.timestamp, offset := some 0 }),
    ("ingested_at", .datetime { clock := event.ingestedAt, offset := some 0 }),
    ("source", .str b.source),
    ("source_type", .str (Text.ofString b.sourceType.toStr)),
    ("service", .ofText b.service),
    ("hostname", .ofText b.hostname),
    ("environment", .str (Text.ofString b.environment.toStr)),
    ("level", .str (Text.ofString b.level.toStr)),
    ("logger", .ofText b.logger),
    ("message", .str b.message),
    ("ip_address", .ofText b.ipAddress),
    ("user_id", .ofText b.userId),
    ("request_id", .ofText b.requestId),
    ("http_method", .ofText (b.httpMethod.map fun method => Text.ofString method.toStr)),
    ("endpoint", .ofText b.endpoint),
    ("status_code", b.statusCode.elim .none .int),
    ("response_time_ms", b.responseTimeMs.elim .none .float),
    ("bytes_sent", b.bytesSent.elim .none .int),
    ("user_agent", .ofText b.userAgent),
    ("referrer", .ofText b.referrer),
    ("metadata", metadata),
    ("raw_message", .str b.rawMessage),
    ("parser", .str b.parser)]

/-! ## The enricher -/

structure RecordEnricher where
  masker : ObjectMasker
  maskRawMessage : Bool := true
  flagSecrets : Bool := true
  dropRawMessage : Bool := false

namespace RecordEnricher

/-- A text that is not empty, masked; and whether that changed it. -/
def maskedText (m : ObjectMasker) (text : Text) : Text × Bool :=
  if text = [] then (text, false)
  else if m.maskText text ≠ text then (m.maskText text, true) else (text, false)

def maskedOption (m : ObjectMasker) : Option Text → Option Text × Bool
  | some text => ((maskedText m text).1, (maskedText m text).2)
  | none => (none, false)

def maskedMetadata (m : ObjectMasker) (metadata : Dict) : Dict × Bool :=
  if metadata.isEmpty then (metadata, false)
  else if Value.sameItems (m.maskMapping metadata) metadata then (metadata, false) else (m.maskMapping metadata, true)

variable (r : RecordEnricher)

def maskedRaw (raw : Text) : Text × Bool :=
  if raw = [] then (raw, false)
  else if r.dropRawMessage then ([], false)
  else if r.maskRawMessage then maskedText r.masker raw
  else (raw, false)

/-- The body with its secrets masked, and `contained_secret`. -/
def redact (b : EventBody) : EventBody × Bool :=
  let message := maskedText r.masker b.message
  let userAgent := maskedOption r.masker b.userAgent
  let referrer := maskedOption r.masker b.referrer
  let endpoint := maskedOption r.masker b.endpoint
  let userId := maskedOption r.masker b.userId
  let metadata := maskedMetadata r.masker b.metadata
  let raw := r.maskedRaw b.rawMessage
  ({ b with
      message := message.1, userAgent := userAgent.1, referrer := referrer.1, endpoint := endpoint.1
      userId := userId.1, metadata := metadata.1, rawMessage := raw.1 },
    message.2 || userAgent.2 || referrer.2 || endpoint.2 || userId.2 || metadata.2 || raw.2)

/-- The keys the enricher itself adds. -/
def derivedKeys : List Text := ["status_class", "is_error", "masked"].map Text.ofString

/-- The derived flags on top of the metadata. -/
def flagged (b : EventBody) (containedSecret : Bool) (metadata : Dict) : Dict :=
  let metadata := match b.statusCode with
    | some status => metadata.set (Text.ofString "status_class") (.str (Text.ofString (toString (status / 100) ++ "xx")))
    | none => metadata
  let metadata := if b.isError then metadata.set (Text.ofString "is_error") (.bool true) else metadata
  if r.flagSecrets && containedSecret then metadata.set (Text.ofString "masked") (.bool true) else metadata

def enrich (event : LogEvent) : LogEvent :=
  let b := event.body
  let redacted :=
    if r.masker.enabled then r.redact b
    else (if r.dropRawMessage then { b with rawMessage := [] } else b, false)
  let metadata := r.flagged b redacted.2 redacted.1.metadata
  { event with
    body := { redacted.1 with metadata := if Value.sameItems metadata b.metadata then b.metadata else metadata } }

/-! ## What is masked -/

theorem maskText_nil (m : Masker) : m.maskText [] = [] := by
  unfold Masker.maskText
  exact if_pos (.inr rfl)

@[simp] theorem maskedText_fst (m : ObjectMasker) (text : Text) : (maskedText m text).1 = m.maskText text := by
  unfold maskedText
  split
  · next h => rw [h, maskText_nil]
  · split
    · rfl
    · next h => exact (not_not.1 h).symm

@[simp] theorem maskedOption_fst (m : ObjectMasker) (text : Option Text) :
    (maskedOption m text).1 = text.map m.maskText := by
  cases text with
  | none => rfl
  | some text => exact congrArg some (maskedText_fst m text)

/-- The keys that are not the enricher's own. -/
def given (metadata : Dict) : Dict := metadata.filter fun item => !decide (item.1 ∈ derivedKeys)

/-- What the default rules do to a text that holds nothing but a password. -/
def passwordMasker : ObjectMasker where
  lower text := text.map Text.asciiLower
  mayContainSecret text := decide (Text.ofString "password" <:+: text)
  rules := [fun text =>
    if text = Text.ofString "password=hunter2" then Text.ofString "password=" ++ redacted else text]

end RecordEnricher

end LogAnalytics
