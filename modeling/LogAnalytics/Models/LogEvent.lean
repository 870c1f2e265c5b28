import Mathlib.Logic.Equiv.List
import LogAnalytics.Lib.Digits
import LogAnalytics.Models.Enums
import LogAnalytics.Timestamps
/-!
# The canonical log record

`LogEvent` and its construction from what a parser has gathered: Pydantic strips the texts,
the validators of the model repair what they can, and a field out of its bounds is a
`ValidationError`. The event id is a hash of the identifying fields.
-/
open LogAnalytics.Lib LogAnalytics.Lib.Calendar

namespace LogAnalytics

/-- The standard library and Pydantic, as far as parsing uses them. -/
structure Python extends TimeParsers where
  /-- `str(ipaddress.ip_address(text))`; `none` is a `ValueError`. -/
  ipAddress : Text → Option Text
  textCase : TextCase
  /-- `str.isdigit` of a character, true of superscripts too. -/
  isDigit : CodePoint → Bool
  /-- `[a-zµ]` without regard to case. -/
  isUnitLetter : CodePoint → Bool
  /-- The nearest float. -/
  nearest : ℚ → ℚ
  /-- `str` of a datetime. -/
  strDatetime : Datetime → Text
  /-- `repr` of a list or a dict, which recurses into it. -/
  reprContainer : Value → Except Exn Text
  /-- `key.islower() and key.isidentifier()` -/
  isCanonicalKey : Text → Bool
  /-- `urllib.parse.unquote(text, errors="replace")` -/
  unquote : Text → Text
  /-- `str.isprintable` of a character. -/
  isPrintable : CodePoint → Bool
  /-- `json.loads`; what it raises is a `ValueError` or a `RecursionError`, of the class named. -/
  loads : Text → Except String Value
  /-- `json.dumps(record, default=str, ensure_ascii=False)` -/
  dumps : Dict → Except Exn Text
  /-- The first row a `csv.reader` reads; what it raises is a `StopIteration` or a `csv.Error`. -/
  csvRow : Text → Except String (List Text)
  /-- The BLAKE2b digest of a text in UTF-8. -/
  blake2b : Text → String
  /-- What a `ValidationError` of the model says. -/
  refusal : String

/-- The fields a parser may fill in. -/
structure Fields where
  level : LogLevel := .unknown
  message : Text := []
  service : Option Text := none
  hostname : Option Text := none
  logger : Option Text := none
  ipAddress : Option Text := none
  userId : Option Text := none
  requestId : Option Text := none
  httpMethod : Option HttpMethod := none
  endpoint : Option Text := none
  statusCode : Option Int := none
  responseTimeMs : Option PyFloat := none
  bytesSent : Option Int := none
  userAgent : Option Text := none
  referrer : Option Text := none
  metadata : Dict := []

/-- All of an event but its identity and its times. -/
structure EventBody extends Fields where
  source : Text
  sourceType : SourceType
  environment : Environment
  rawMessage : Text
  parser : Text

structure LogEvent where
  eventId : String
  timestamp : Clock
  ingestedAt : Clock
  body : EventBody

/-! ## The model's validators -/

/-- What `str_strip_whitespace` strips: Unicode white space. -/
def Text.isWhiteSpace (c : CodePoint) : Bool := isSpace c && !(28 ≤ c.val && c.val ≤ 31)

def Text.trim (t : Text) : Text := ((t.dropWhile isWhiteSpace).reverse.dropWhile isWhiteSpace).reverse

namespace EventBody

def maxMetadataKeys : Nat := 64

def maxMetadataValueLength : Nat := 4096

def maxMessageLength : Nat := 65536

def maxRawLength : Nat := 131072

/-- `_ip`: the left-most address of a list; what is no address is dropped. -/
def ip (py : Python) (value : Text) : Option Text :=
  let text := value.strip
  if value = [] ∨ text = Text.ofString "-" ∨ text = Text.ofString "unknown" then none
  else
    let comma := Timeutil.char ','
    py.ipAddress (if comma ∈ text then Text.strip (text.takeWhile (· ≠ comma)) else text)

/-- `_bounded_metadata` -/
def boundedMetadata (metadata : Dict) : Dict :=
  (metadata.take maxMetadataKeys).foldl (fun out item =>
    out.set (item.1.take 128)
      (match item.2 with
      | .str text => .str (text.take maxMetadataValueLength)
      | value => value)) []

/-- The values the constraints are checked on. -/
def prepare (py : Python) (b : EventBody) : EventBody :=
  { b with
    source := b.source.trim, message := b.message.trim, rawMessage := b.rawMessage.trim, parser := b.parser.trim
    service := b.service.map Text.trim, hostname := b.hostname.map Text.trim, logger := b.logger.map Text.trim
    userId := b.userId.map Text.trim, requestId := b.requestId.map Text.trim, endpoint := b.endpoint.map Text.trim
    userAgent := b.userAgent.map Text.trim, referrer := b.referrer.map Text.trim
    ipAddress := b.ipAddress.bind (ip py)
    metadata := boundedMetadata b.metadata }

/-- The texts of an event with their greatest lengths. -/
def texts (b : EventBody) : List (Nat × Text) :=
  [(255, b.source), (maxMessageLength, b.message), (maxRawLength, b.rawMessage), (255, b.parser)] ++
    ([(255, b.service), (255, b.hostname), (255, b.logger), (255, b.ipAddress), (255, b.userId), (255, b.requestId),
      (2048, b.endpoint), (1024, b.userAgent), (2048, b.referrer)].filterMap fun x => x.2.map (x.1, ·))

/-- `0 ≤ value ≤ 86_400_000` -/
def plausibleDuration : PyFloat → Bool
  | .finite q => 0 ≤ q && q ≤ 86400000
  | .infinite _ | .nan => false

/-- The constraints of the fields; a text with a lone surrogate is none. -/
def wellFormed (b : EventBody) : Bool :=
  b.texts.all (fun x => Text.encodable x.2 && x.2.length ≤ x.1) && b.metadata.all (Text.encodable ·.1) &&
    b.statusCode.all (fun status => 100 ≤ status && status ≤ 599) && b.responseTimeMs.all plausibleDuration &&
    b.bytesSent.all (0 ≤ ·)

end EventBody

/-! ## The event id -/

/-- The characters of `str(timestamp)`; a fraction only when there is one. -/
def Clock.chars (c : Clock) : List Char :=
  let seconds := c.timeOfDay / 10 ^ 6
  let micros := c.timeOfDay % 10 ^ 6
  zeroPad 4 (yearOf c.day) ++ '-' :: zeroPad 2 (monthOf c.day) ++ '-' :: zeroPad 2 (dayOf c.day) ++
    ' ' :: zeroPad 2 (seconds / 3600) ++ ':' :: zeroPad 2 (seconds / 60 % 60) ++ ':' :: zeroPad 2 (seconds % 60) ++
    (if micros = 0 then [] else '.' :: zeroPad 6 micros) ++ "+00:00".toList

/-- `_canonical` of a text or `None`. -/
def canonical : Option Text → Text
  | none => Timeutil.char '\x00' :: Text.ofString "none"
  | some text => text

/-- `event_id_for`: the fingerprint of the parts. -/
def eventIdFor (py : Python) (parts : List Text) : String := py.blake2b ((parts.intersperse [Timeutil.char '\x1f']).flatten)

/-- `compute_event_id`: when it was ingested does not matter. -/
def computeEventId (py : Python) (timestamp : Clock) (b : EventBody) : String :=
  eventIdFor py
    [timestamp.chars.map Timeutil.char, b.source, canonical b.service, Text.ofString b.level.toStr,
      if b.message = [] then b.rawMessage else b.message, canonical b.requestId]

theorem Timeutil.char_injective : Function.Injective Timeutil.char := CodePoint.ofChar_injective

/-- Two numbers with the same digits are the same. -/
theorem Text.ofString_nat_injective : Function.Injective fun n : Nat => Text.ofString (toString n) := by
  intro n m h
  have hs := Text.ofString_injective h
  rw [Nat.toString_eq_ofList_toDigits, Nat.toString_eq_ofList_toDigits] at hs
  have hd := String.ofList_injective hs
  rw [← Nat.ofDigitChars_ten_toDigits (n := n), hd, Nat.ofDigitChars_ten_toDigits]

/-- Two times with the same text are the same. -/
theorem Clock.chars_injective : Function.Injective Clock.chars := by
  intro a b h
  have hmonth : ∀ c : Clock, monthOf c.day < 10 ^ 2 := fun c => Nat.lt_of_le_of_lt (monthOf_le _) (by decide)
  have hday : ∀ c : Clock, dayOf c.day < 10 ^ 2 := fun c => Nat.lt_of_le_of_lt (dayOf_le _) (by decide)
  have htod : ∀ c : Clock, c.timeOfDay / 10 ^ 6 < 86400 := fun c => by
    have := c.timeOfDay_lt
    simp only [dayMicros, hourMicros] at this
    omega
  simp only [chars, List.append_assoc, List.cons_append] at h
  -- Every field has its width, so the texts agree field by field.
  obtain ⟨h1, h⟩ := zeroPad_append_inj (by decide) (Nat.lt_succ_of_le a.year_le) (Nat.lt_succ_of_le b.year_le) h
  obtain ⟨h2, h⟩ := zeroPad_append_inj (by decide) (hmonth a) (hmonth b) (List.cons.inj h).2
  obtain ⟨h3, h⟩ := zeroPad_append_inj (by decide) (hday a) (hday b) (List.cons.inj h).2
  have hsec := htod a
  have hsec' := htod b
  obtain ⟨h4, h⟩ := zeroPad_append_inj (by decide) (by omega) (by omega) (List.cons.inj h).2
  obtain ⟨h5, h⟩ := zeroPad_append_inj (by decide) (by omega) (by omega) (List.cons.inj h).2
  obtain ⟨h6, h⟩ := zeroPad_append_inj (by decide) (by omega) (by omega) (List.cons.inj h).2
  have h7 : a.timeOfDay % 10 ^ 6 = b.timeOfDay % 10 ^ 6 := by
    have hfraction := List.append_cancel_right h
    split at hfraction <;> split at hfraction
    · omega
    · cases hfraction
    · cases hfraction
    · exact zeroPad_injective (List.cons.inj hfraction).2
  have hdays : a.day = b.day := by
    rw [← dayNumber_fields a.day, h1, h2, h3, dayNumber_fields]
  have htime : a.timeOfDay = b.timeOfDay := by omega
  rw [Clock.ext_iff, ← a.day_timeOfDay, hdays, htime, b.day_timeOfDay]

/-- Without collisions of the hash the id tells two times apart. -/
theorem computeEventId_inj {py : Python} (hhash : Function.Injective py.blake2b) {a b : Clock} {body : EventBody}
    (h : computeEventId py a body = computeEventId py b body) : a = b := by
  have hparts := hhash h
  simp only [List.intersperse, List.flatten_cons, List.append_cancel_right_eq] at hparts
  exact Clock.chars_injective (List.map_injective_iff.2 Timeutil.char_injective hparts)

/-- `LogEvent.build` -/
def LogEvent.build (py : Python) (now timestamp : Clock) (b : EventBody) : Except Exn LogEvent :=
  let b := b.prepare py
  if b.wellFormed then
    .ok { eventId := computeEventId py timestamp b, timestamp := timestamp, ingestedAt := now, body := b }
  else .error ⟨.validationError, py.refusal⟩

theorem LogEvent.build_ok_iff {py : Python} {now timestamp : Clock} {b : EventBody} {event : LogEvent} :
    build py now timestamp b = .ok event ↔
      (b.prepare py).wellFormed = true ∧
        event = { eventId := computeEventId py timestamp (b.prepare py), timestamp := timestamp, ingestedAt := now,
                  body := b.prepare py } := by
  unfold build
  dsimp only
  split
  · next hformed => simp [hformed, eq_comm]
  · next hformed => simp [hformed]

end LogAnalytics
