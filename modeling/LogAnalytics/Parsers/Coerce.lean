import LogAnalytics.Models.LogEvent
/-!
# Coercing values

`coerce_int`, `coerce_duration_ms` and the `coerce` of the enumerations, on any value a record
may hold. A conversion Python refuses with a `TypeError` or `ValueError` gives `None` where
the code catches it; an `OverflowError` is caught nowhere.
-/

namespace LogAnalytics

namespace Python

/-- `float(z)` -/
def floatOfInt (py : Python) (z : Int) : Except Exn PyFloat :=
  if z.natAbs < floatLimit then .ok (.finite (py.nearest z))
  else .error ⟨.overflowError, "int too large to convert to float"⟩

/-- `float(value)`; `none` is a `TypeError` or a `ValueError`. -/
def floatOf (py : Python) : Value → Except Exn (Option PyFloat)
  | .int z => (py.floatOfInt z).map some
  | .float f => .ok (some f)
  | .str text => .ok (py.float text)
  | .bool b => .ok (some (.finite (if b then 1 else 0)))
  | _ => .ok none

/-- `str(value)` -/
def str (py : Python) : Value → Except Exn Text
  | .str text => .ok text
  | .none => .ok (Text.ofString "None")
  | .bool b => .ok (Text.ofString (if b then "True" else "False"))
  | .int z => reprInt z
  | .float f => .ok (py.reprFloat f)
  | .datetime d => .ok (py.strDatetime d)
  | value => py.reprContainer value

/-- `int(text)` of a text of digits; a digit that is not decimal is a `ValueError`. -/
def intOfDigits (py : Python) (text : Text) : Except Exn Nat :=
  match text.mapM py.decimal with
  | some digits => .ok (digits.foldl (fun n d => 10 * n + d) 0)
  | none => .error ⟨.valueError, "invalid literal for int() with base 10"⟩

end Python

/-- `int(f)`: infinity overflows, NaN is a `ValueError`. -/
def PyFloat.toInt : PyFloat → Except Exn (Option Int)
  | .finite q => .ok (some (if 0 ≤ q then ⌊q⌋ else ⌈q⌉))
  | .nan => .ok none
  | .infinite _ => .error ⟨.overflowError, "cannot convert float infinity to integer"⟩

/-- `value is None or value == "" or value == "-"`, or a `bool`. -/
def Value.isBlank : Value → Bool
  | .none | .bool _ => true
  | .str text => text = [] || text = Text.ofString "-"
  | _ => false

def coerceInt (py : Python) (value : Value) : Except Exn (Option Int) :=
  if value.isBlank then .ok none
  else
    match py.floatOf value with
    | .error exn => .error exn
    | .ok none => .ok none
    | .ok (some f) => f.toInt

/-! ## Durations -/

/-- `_DURATION_UNITS`: milliseconds in a unit. -/
def durationUnits : List (String × ℚ) := [
  ("ns", 1 / 1000000), ("us", 1 / 1000), ("µs", 1 / 1000), ("ms", 1), ("s", 1000), ("sec", 1000), ("secs", 1000),
  ("second", 1000), ("seconds", 1000), ("m", 60000), ("min", 60000)]

/-- `_DURATION_BY_NAME` -/
def durationByName : List (String × ℚ) :=
  [("request_time", 1000), ("upstream_time", 1000), ("upstream_response_time", 1000)]

/-- `_DURATION_SUFFIXES` -/
def durationSuffixes : List (String × ℚ) := [
  ("_ms", 1), ("_millis", 1), ("_milliseconds", 1), ("_us", 1 / 1000), ("_micros", 1 / 1000), ("_ns", 1 / 1000000),
  ("_nanos", 1 / 1000000), ("_s", 1000), ("_sec", 1000), ("_secs", 1000), ("_seconds", 1000)]

def durationMultiplier (py : Python) (fieldName : Option Text) : Option ℚ :=
  match fieldName with
  | none | some [] => none
  | some fieldName =>
    let name := py.textCase.lower fieldName
    match durationByName.find? fun x => Text.ofString x.1 = name with
    | some (_, multiplier) => some multiplier
    | none => (durationSuffixes.find? fun x => (Text.ofString x.1).isSuffixOf name).map (·.2)

def Text.isAsciiDigit (c : CodePoint) : Bool := 48 ≤ c.val && c.val ≤ 57

/-- The number a text of ASCII digits writes. -/
def Text.digitsValue (t : Text) : Nat := t.foldl (fun n c => 10 * n + (c.val - 48)) 0

/-- `_DURATION_RE.match`: the number and the unit. -/
def matchDuration (py : Python) (text : Text) : Option (ℚ × Text) :=
  let text := text.dropWhile Text.isSpace
  let whole := text.takeWhile Text.isAsciiDigit
  let rest := text.dropWhile Text.isAsciiDigit
  let fraction := if rest.head? = some (Timeutil.char '.') then rest.tail.takeWhile Text.isAsciiDigit else []
  let rest := if rest.head? = some (Timeutil.char '.') ∧ fraction ≠ [] then rest.drop (fraction.length + 1) else rest
  let rest := rest.dropWhile Text.isSpace
  let unit := rest.takeWhile py.isUnitLetter
  if 1 ≤ whole.length ∧ whole.length ≤ 15 ∧ fraction.length ≤ 9 ∧ unit.length ≤ 7 ∧
      (rest.dropWhile py.isUnitLetter).all Text.isSpace = true then
    some (Text.digitsValue whole + (Text.digitsValue fraction : ℚ) / 10 ^ fraction.length, unit)
  else none

def PyFloat.scale (f : PyFloat) (multiplier : ℚ) : PyFloat :=
  match f with
  | .finite q => .finite (q * multiplier)
  | f => f

/-- The unit of the field's name, or a guess from the magnitude. -/
def durationByMagnitude (py : Python) (number : PyFloat) (fieldName : Option Text) : PyFloat :=
  match durationMultiplier py fieldName with
  | some multiplier => number.scale multiplier
  | none =>
    match number with
    | .finite q => if 0 < q ∧ q < 10 ∧ q ≠ ⌊q⌋ then .finite (q * 1000) else number
    | _ => number

def coerceDurationMs (py : Python) (value : Value) (fieldName : Option Text) : Except Exn (Option PyFloat) :=
  if value.isBlank then .ok none
  else
    match value with
    | .int z => (py.floatOfInt z).map fun number => some (durationByMagnitude py number fieldName)
    | .float number => .ok (some (durationByMagnitude py number fieldName))
    | value =>
      (py.str value).map fun text =>
        (matchDuration py text).bind fun (number, unit) =>
          if unit = [] then some (durationByMagnitude py (.finite number) fieldName)
          else (durationUnits.find? fun x => Text.ofString x.1 = py.textCase.lower unit).map fun x => .finite (number * x.2)

/-! ## Enumerations -/

namespace LogLevel

/-- `coerce` of a text. -/
def ofText (py : Python) (text : Text) : LogLevel :=
  let text := py.textCase.upper text.strip
  match members.find? fun level => Text.ofString level.toStr = text with
  | some level => level
  | none => ((aliases.find? fun x => Text.ofString x.1 = text).map (·.2)).getD .unknown

def coerce (py : Python) : Value → Except Exn LogLevel
  | .none => .ok .unknown
  | value => (py.str value).map (ofText py)

end LogLevel

namespace HttpMethod

/-- `coerce` of a text. -/
def ofText (py : Python) (text : Text) : Option HttpMethod :=
  let text := py.textCase.upper text.strip
  if text = [] then none else some ((members.find? fun m => Text.ofString m.toStr = text).getD .other)

def coerce (py : Python) : Value → Except Exn (Option HttpMethod)
  | .none => .ok none
  | value => (py.str value).map (ofText py)

end HttpMethod

end LogAnalytics
