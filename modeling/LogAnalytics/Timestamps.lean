import LogAnalytics.Models.Value
/-!
# Reading timestamps

`parse_timestamp` with the clock it may ask as an argument. What it makes of a value splits
in two: a `Reading`, which does not depend on the clock, and what the clock completes it to.
-/
open LogAnalytics.Lib.Calendar

namespace LogAnalytics

/-- What timestamps are read with: `none` is a `ValueError`, of `dateutil` any exception.
`dateutil` fills what a text leaves out from the clock. -/
structure TimeParsers where
  /-- The value of a decimal digit, which `\d` matches. -/
  decimal : CodePoint → Option Nat
  /-- `float(text)` -/
  float : Text → Option PyFloat
  /-- `repr` of a float. -/
  reprFloat : PyFloat → Text
  fromisoformat : Text → Option Datetime
  strptime : Text → String → Option Datetime
  dateutil : Clock → Text → Option Datetime

def TimeParsers.isDecimal (p : TimeParsers) (c : CodePoint) : Bool := (p.decimal c).isSome

namespace Timeutil

/-- `_STRPTIME_FORMATS` -/
def strptimeFormats : List String := [
  "%Y-%m-%d %H:%M:%S",
  "%Y-%m-%d %H:%M:%S.%f",
  "%Y-%m-%dT%H:%M:%S",
  "%Y-%m-%dT%H:%M:%S.%f",
  "%d/%b/%Y:%H:%M:%S %z",
  "%d/%b/%Y:%H:%M:%S",
  "%b %d %H:%M:%S",
  "%Y/%m/%d %H:%M:%S",
  "%m/%d/%Y %H:%M:%S",
  "%Y-%m-%d",
  "%Y%m%dT%H%M%SZ"]

/-- `"%Y" not in fmt`, which is true of the syslog format only. -/
def yearless (fmt : String) : Bool := fmt = "%b %d %H:%M:%S"

def char (c : Char) : CodePoint := Fin.ofNat 0x110000 c.toNat

/-- `_bounded` -/
def bounded (value : Clock) : Option Clock := if minTimestamp ≤ value ∧ value ≤ maxTimestamp then some value else none

/-- The start of 1970. -/
def epochMicros : Nat := dayNumber 1970 1 1 * dayMicros

/-- `datetime.fromtimestamp(seconds, tz=UTC)`, rounded down to microseconds; `none` where it raises. -/
def fromtimestamp : PyFloat → Option Clock
  | .finite seconds => (Clock.ofMicros (epochMicros + ⌊seconds * 10 ^ 6⌋)).toOption
  | .infinite _ | .nan => none

/-- A numeric text in seconds, milli-, micro- or nanoseconds, by its length. -/
def fromEpoch (p : TimeParsers) (raw : Text) : Option Clock :=
  (p.float raw).bind fun number =>
    let digits := (raw.takeWhile (· ≠ char '.')).length
    fromtimestamp
      (if digits ≤ 10 then number
       else if digits ≤ 13 then number.divide 1000
       else if digits ≤ 16 then number.divide 1000000
       else number.divide 1000000000)

/-- `_EPOCH_RE.match`: 9 to 19 digits, a fraction of up to 9; `$` also matches before a final newline. -/
def isEpoch (p : TimeParsers) (text : Text) : Bool :=
  let text := if text.getLast? = some (char '\n') then text.dropLast else text
  let whole := text.takeWhile p.isDecimal
  9 ≤ whole.length && whole.length ≤ 19 &&
    match text.dropWhile p.isDecimal with
    | [] => true
    | c :: fraction => c = char '.' && 1 ≤ fraction.length && fraction.length ≤ 9 && fraction.all p.isDecimal

/-- Without the brackets Nginx and Apache put around it. -/
def unbracket (text : Text) : Text :=
  if text.head? = some (char '[') ∧ text.getLast? = some (char ']') then text.tail.dropLast else text

def isoCandidate (text : Text) : Text :=
  if text.getLast? = some (char 'Z') then
    text.flatMap fun c => if c = char 'Z' then Text.ofString "+00:00" else [c]
  else text

/-- `value.replace(year=year)` -/
def replaceYear (d : Datetime) (year : Nat) : Except Exn Datetime :=
  (Clock.ofDate year (monthOf d.clock.day) (dayOf d.clock.day) d.clock.timeOfDay d.clock.timeOfDay_lt).map fun c =>
    { d with clock := c }

/-- `default_year or utcnow().year` -/
def assumedYear (now : Clock) (defaultYear : Option Nat) : Nat := (defaultYear.filter (· ≠ 0)).getD (yearOf now.day)

/-- The first format that reads a text. -/
def matchFormat (p : TimeParsers) (text : Text) : Option (String × Datetime) :=
  strptimeFormats.findSome? fun fmt => (p.strptime text fmt).map (fmt, ·)

/-- A text without blanks around it that is not empty. -/
def parseText (p : TimeParsers) (now : Clock) (defaultYear : Option Nat) (raw : Text) : Except Exn (Option Clock) :=
  let text := unbracket raw
  match if isEpoch p text then fromEpoch p text else none with
  | some parsed => .ok (bounded parsed)
  | none =>
    match p.fromisoformat (isoCandidate text) with
    | some d => (ensureUtc d).map bounded
    | none =>
      match matchFormat p text with
      | some (fmt, d) =>
        if yearOf d.clock.day = 1900 ∧ yearless fmt = true then
          (replaceYear d (assumedYear now defaultYear)).bind fun d => (ensureUtc d).map bounded
        else (ensureUtc d).map bounded
      | none => .ok ((p.dateutil now text).bind fun d => (ensureUtc d).toOption.bind bounded)

/-- `parse_timestamp`; a list or a dict has no `strip`. -/
def parseTimestamp (p : TimeParsers) (now : Clock) (defaultYear : Option Nat) : Value → Except Exn (Option Clock)
  | .none | .bool _ => .ok none
  | .datetime d => (ensureUtc d).map bounded
  | .int z => (reprInt z).map fun text => (fromEpoch p text).bind bounded
  | .float f => .ok ((fromEpoch p (p.reprFloat f)).bind bounded)
  | .str raw => if raw.strip = [] then .ok none else parseText p now defaultYear raw.strip
  | value => .error ⟨.attributeError, s!"'{value.typeName}' object has no attribute 'strip'"⟩

/-! ## What the clock adds -/

/-- What a value says of a time, before the clock is asked. -/
inductive Reading where
  /-- All of it, or nothing. -/
  | fixed (outcome : Except Exn (Option Clock))
  /-- All but the year. -/
  | yearless (d : Datetime)
  /-- Whatever `dateutil` finds in it. -/
  | flexible (text : Text)

def Reading.at (p : TimeParsers) (now : Clock) : Reading → Except Exn (Option Clock)
  | .fixed outcome => outcome
  | .yearless d => (replaceYear d (yearOf now.day)).bind fun d => (ensureUtc d).map bounded
  | .flexible text => .ok ((p.dateutil now text).bind fun d => (ensureUtc d).toOption.bind bounded)

def textReading (p : TimeParsers) (defaultYear : Option Nat) (raw : Text) : Reading :=
  let text := unbracket raw
  match if isEpoch p text then fromEpoch p text else none with
  | some parsed => .fixed (.ok (bounded parsed))
  | none =>
    match p.fromisoformat (isoCandidate text) with
    | some d => .fixed ((ensureUtc d).map bounded)
    | none =>
      match matchFormat p text with
      | some (fmt, d) =>
        if yearOf d.clock.day = 1900 ∧ yearless fmt = true then
          match defaultYear.filter (· ≠ 0) with
          | some year => .fixed ((replaceYear d year).bind fun d => (ensureUtc d).map bounded)
          | none => .yearless d
        else .fixed ((ensureUtc d).map bounded)
      | none => .flexible text

def reading (p : TimeParsers) (defaultYear : Option Nat) : Value → Reading
  | .str raw => if raw.strip = [] then .fixed (.ok none) else textReading p defaultYear raw.strip
  | .none | .bool _ => .fixed (.ok none)
  | .datetime d => .fixed ((ensureUtc d).map bounded)
  | .int z => .fixed ((reprInt z).map fun text => (fromEpoch p text).bind bounded)
  | .float f => .fixed (.ok ((fromEpoch p (p.reprFloat f)).bind bounded))
  | value => .fixed (.error ⟨.attributeError, s!"'{value.typeName}' object has no attribute 'strip'"⟩)

theorem parseText_eq (p : TimeParsers) (now : Clock) (defaultYear : Option Nat) (raw : Text) :
    parseText p now defaultYear raw = (textReading p defaultYear raw).at p now := by
  unfold parseText textReading
  dsimp only
  -- The branches of the two agree; only without a default year is the clock asked.
  split
  · rfl
  · split
    · rfl
    · split
      · split
        · unfold assumedYear
          split
          all_goals
            rename_i hyear
            rw [hyear]
            rfl
        · rfl
      · rfl

/-- The clock is asked for a year or by `dateutil`, and for nothing else. -/
theorem parseTimestamp_eq (p : TimeParsers) (now : Clock) (defaultYear : Option Nat) (value : Value) :
    parseTimestamp p now defaultYear value = (reading p defaultYear value).at p now := by
  cases value with
  | str raw =>
    rw [parseTimestamp, reading]
    split
    · rfl
    · exact parseText_eq p now defaultYear _
  | _ => rfl

/-- Within a year a year-less time stays the same. -/
theorem Reading.at_yearless {p : TimeParsers} {t t' : Clock} (h : yearOf t.day = yearOf t'.day) (d : Datetime) :
    (Reading.yearless d).at p t = (Reading.yearless d).at p t' := by
  rw [Reading.at, Reading.at, h]

end Timeutil

end LogAnalytics
