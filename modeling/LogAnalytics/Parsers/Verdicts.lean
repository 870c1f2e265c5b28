import LogAnalytics.Lib.Loops
import LogAnalytics.Parsers.Access
import LogAnalytics.Parsers.Custom
/-!
# Which values a parser cannot take

`_parse_one` catches `ParseError`, `ValueError` and `TypeError`. A conversion is `fine`,
`refused` with one of these, or its exception `escapes`. The verdicts below are read off the
values; the first of a record that is not fine is the record's, and it is what the parser does.
-/

namespace LogAnalytics

inductive Verdict where
  | fine | refused | escapes
  deriving DecidableEq, Repr

namespace Verdict

/-- `w` comes after `v`. -/
def andThen : Verdict → Verdict → Verdict
  | .fine, w => w
  | .refused, _ => .refused
  | .escapes, _ => .escapes

/-- The first that is not fine. -/
def first (vs : List Verdict) : Verdict := vs.foldr andThen .fine

def ofExn (exn : Exn) : Verdict := if (LogPipeline.handled exn).isSome then .refused else .escapes

/-- What becomes of a computation. -/
def of {α : Type} : Except Exn α → Verdict
  | .ok _ => .fine
  | .error exn => ofExn exn

variable {α β : Type}

@[simp] theorem fine_andThen (w : Verdict) : andThen .fine w = w := rfl

@[simp] theorem andThen_fine (v : Verdict) : andThen v .fine = v := by
  cases v <;> rfl

@[simp] theorem of_ok (a : α) : of (.ok a : Except Exn α) = .fine := rfl

@[simp] theorem of_pure (a : α) : of (pure a : Except Exn α) = .fine := rfl

@[simp] theorem of_error (exn : Exn) : of (.error exn : Except Exn α) = ofExn exn := rfl

theorem ofExn_andThen (exn : Exn) (w : Verdict) : andThen (ofExn exn) w = ofExn exn := by
  unfold ofExn
  split <;> rfl

@[simp] theorem of_map (f : α → β) (x : Except Exn α) : of (x.map f) = of x := by
  cases x <;> rfl

/-- What comes first decides, if it is not fine. -/
theorem of_bind {x : Except Exn α} {f : α → Except Exn β} {w : Verdict} (h : ∀ a, x = .ok a → of (f a) = w) :
    of (x >>= f) = (of x).andThen w := by
  cases x with
  | ok a => exact h a rfl
  | error exn => exact (ofExn_andThen exn w).symm

theorem of_bind_eq {x : Except Exn α} {f : α → Except Exn β} {v w : Verdict} (hx : of x = v)
    (h : ∀ a, x = .ok a → of (f a) = w) : of (x >>= f) = v.andThen w := by
  rw [of_bind h, hx]

theorem of_bind_pure (x : Except Exn α) (g : α → β) : of (x >>= fun a => pure (g a)) = of x := by
  cases x <;> rfl

theorem ofExn_parseError (msg : String) : ofExn ⟨.parseError, msg⟩ = .refused := rfl

theorem ofExn_valueError (msg : String) : ofExn ⟨.valueError, msg⟩ = .refused := rfl

theorem ofExn_overflowError (msg : String) : ofExn ⟨.overflowError, msg⟩ = .escapes := rfl

theorem ofExn_attributeError (msg : String) : ofExn ⟨.attributeError, msg⟩ = .escapes := rfl

end Verdict

/-! ## Values -/

/-- `float` takes the integer. -/
def fitsFloat (z : Int) : Bool := z.natAbs < floatLimit

/-- `str` takes the integer. -/
def fitsText (z : Int) : Bool := z.natAbs < textLimit

/-- Of `coerce_int`: an infinity, or an integer past the largest float. -/
def intVerdict (py : Python) (value : Value) : Verdict :=
  if value.isBlank then .fine
  else
    match value with
    | .int z => if fitsFloat z then .fine else .escapes
    | .float (.infinite _) => .escapes
    | .str text =>
      match py.float text with
      | some (.infinite _) => .escapes
      | _ => .fine
    | _ => .fine

/-- Of `str`: an integer of too many digits is refused; a container may nest too deep. -/
def strVerdict (py : Python) : Value → Verdict
  | .int z => if fitsText z then .fine else .refused
  | .list items => .of (py.reprContainer (.list items))
  | .dict items => .of (py.reprContainer (.dict items))
  | _ => .fine

/-- Of `coerce_duration_ms`. -/
def durationVerdict (py : Python) (value : Value) : Verdict :=
  if value.isBlank then .fine
  else
    match value with
    | .int z => if fitsFloat z then .fine else .escapes
    | .float _ => .fine
    | value => strVerdict py value

/-- Of `LogLevel.coerce` and `HttpMethod.coerce`. -/
def nameVerdict (py : Python) : Value → Verdict
  | .none => .fine
  | value => strVerdict py value

theorem of_reprInt (z : Int) : Verdict.of (reprInt z) = if fitsText z then .fine else .refused := by
  unfold reprInt fitsText
  by_cases h : z.natAbs < textLimit
  · simp [h]
  · simp [h, Verdict.ofExn_valueError]

theorem floatOfInt_of_fits {py : Python} {z : Int} (h : fitsFloat z = true) :
    py.floatOfInt z = .ok (.finite (py.nearest z)) :=
  if_pos (of_decide_eq_true h)

theorem floatOfInt_of_not_fits {py : Python} {z : Int} (h : fitsFloat z = false) :
    py.floatOfInt z = .error ⟨.overflowError, "int too large to convert to float"⟩ :=
  if_neg (of_decide_eq_false h)

theorem of_floatOfInt (py : Python) (z : Int) : Verdict.of (py.floatOfInt z) = if fitsFloat z then .fine else .escapes := by
  cases h : fitsFloat z with
  | true => simp [floatOfInt_of_fits h]
  | false => simp [floatOfInt_of_not_fits h, Verdict.ofExn_overflowError]

theorem of_str (py : Python) (value : Value) : Verdict.of (py.str value) = strVerdict py value := by
  cases value with
  | int z => exact of_reprInt z
  | _ => rfl

theorem of_coerceInt (py : Python) (value : Value) : Verdict.of (coerceInt py value) = intVerdict py value := by
  unfold coerceInt intVerdict
  split
  · rfl
  · cases value with
    | int z =>
      unfold Python.floatOf
      cases h : fitsFloat z with
      | true => simp [floatOfInt_of_fits h, h, Except.map, PyFloat.toInt]
      | false => simp [floatOfInt_of_not_fits h, h, Except.map, Verdict.ofExn_overflowError]
    | float f => cases f <;> rfl
    | str text =>
      unfold Python.floatOf
      rcases h : py.float text with _ | (_ | _ | _) <;> simp [h, PyFloat.toInt, Verdict.ofExn_overflowError]
    | bool b => rfl
    | _ => rfl

theorem of_coerceDurationMs (py : Python) (value : Value) (fieldName : Option Text) :
    Verdict.of (coerceDurationMs py value fieldName) = durationVerdict py value := by
  unfold coerceDurationMs durationVerdict
  split
  · rfl
  · cases value with
    | int z => simp only [Verdict.of_map, of_floatOfInt]
    | float f => rfl
    | _ => simp only [Verdict.of_map, of_str]

theorem of_levelCoerce (py : Python) (value : Value) : Verdict.of (LogLevel.coerce py value) = nameVerdict py value := by
  cases value with
  | none => rfl
  | _ => simp only [LogLevel.coerce, Verdict.of_map, of_str, nameVerdict]

theorem of_methodCoerce (py : Python) (value : Value) : Verdict.of (HttpMethod.coerce py value) = nameVerdict py value := by
  cases value with
  | none => rfl
  | _ => simp only [HttpMethod.coerce, Verdict.of_map, of_str, nameVerdict]

/-! ## Timestamps -/

/-- The moment a datetime means is one UTC can show. -/
def calendarVerdict (d : Datetime) : Verdict := if 0 ≤ d.instant ∧ d.instant < endMicros then .fine else .escapes

/-- Of a text that is not blank: what `fromisoformat` or a format reads is converted to UTC. -/
def textTimeVerdict (py : Python) (now : Clock) (defaultYear : Option Nat) (raw : Text) : Verdict :=
  let text := Timeutil.unbracket raw
  match if Timeutil.isEpoch py.toTimeParsers text then Timeutil.fromEpoch py.toTimeParsers text else none with
  | some _ => .fine
  | none =>
    match py.fromisoformat (Timeutil.isoCandidate text) with
    | some d => calendarVerdict d
    | none =>
      match Timeutil.matchFormat py.toTimeParsers text with
      | some (fmt, d) =>
        if Lib.Calendar.yearOf d.clock.day = 1900 ∧ Timeutil.yearless fmt = true then
          match Timeutil.replaceYear d (Timeutil.assumedYear now defaultYear) with
          | .ok d => calendarVerdict d
          | .error _ => .refused
        else calendarVerdict d
      | none => .fine

/-- Of `parse_timestamp`: a list or a dict is not caught, and neither is a time UTC cannot show. -/
def timeVerdict (py : Python) (now : Clock) (defaultYear : Option Nat) : Value → Verdict
  | .datetime d => calendarVerdict d
  | .int z => if fitsText z then .fine else .refused
  | .str raw => if raw.strip = [] then .fine else textTimeVerdict py now defaultYear raw.strip
  | .list _ | .dict _ => .escapes
  | _ => .fine

def stampVerdict (py : Python) (now : Clock) (stamp : Stamp) : Verdict :=
  match stamp.format, stamp.value with
  | some format, .str text =>
    match py.strptime text format with
    | some d => calendarVerdict d
    | none => timeVerdict py now stamp.defaultYear (.str text)
  | _, value => timeVerdict py now stamp.defaultYear value

theorem of_ofMicros (z : Int) : Verdict.of (Clock.ofMicros z) = if 0 ≤ z ∧ z < endMicros then .fine else .escapes := by
  unfold Clock.ofMicros
  split
  · rfl
  · exact Verdict.ofExn_overflowError _

theorem of_ensureUtc (d : Datetime) : Verdict.of (Timeutil.ensureUtc d) = calendarVerdict d := by
  unfold Timeutil.ensureUtc calendarVerdict Datetime.instant
  cases d.offset with
  | none =>
    have hlt := d.clock.lt_end
    simp only [Verdict.of_ok, Option.getD_none]
    rw [if_pos ⟨by omega, by omega⟩]
  | some offset => exact of_ofMicros _

theorem of_replaceYear (d : Datetime) (year : Nat) {f : Datetime → Except Exn (Option Clock)}
    (h : ∀ d, Verdict.of (f d) = calendarVerdict d) :
    Verdict.of ((Timeutil.replaceYear d year).bind f) =
      match Timeutil.replaceYear d year with
      | .ok d => calendarVerdict d
      | .error _ => .refused := by
  unfold Timeutil.replaceYear Clock.ofDate
  split
  · split
    · split
      · exact h _
      · exact Verdict.ofExn_valueError _
    · exact Verdict.ofExn_valueError _
  · exact Verdict.ofExn_valueError _

theorem of_parseText (py : Python) (now : Clock) (defaultYear : Option Nat) (raw : Text) :
    Verdict.of (Timeutil.parseText py.toTimeParsers now defaultYear raw) = textTimeVerdict py now defaultYear raw := by
  have hutc : ∀ d, Verdict.of ((Timeutil.ensureUtc d).map Timeutil.bounded) = calendarVerdict d := fun d => by
    rw [Verdict.of_map, of_ensureUtc]
  unfold Timeutil.parseText textTimeVerdict
  dsimp only
  -- The verdict follows the parser from branch to branch.
  cases (if Timeutil.isEpoch py.toTimeParsers (Timeutil.unbracket raw) then
      Timeutil.fromEpoch py.toTimeParsers (Timeutil.unbracket raw) else none) with
  | some parsed => rfl
  | none =>
    cases py.fromisoformat (Timeutil.isoCandidate (Timeutil.unbracket raw)) with
    | some d => exact hutc d
    | none =>
      cases Timeutil.matchFormat py.toTimeParsers (Timeutil.unbracket raw) with
      | none => rfl
      | some found =>
        obtain ⟨fmt, d⟩ := found
        by_cases hyear : Lib.Calendar.yearOf d.clock.day = 1900 ∧ Timeutil.yearless fmt = true
        · simp only [if_pos hyear]
          exact of_replaceYear _ _ hutc
        · simp only [if_neg hyear]
          exact hutc d

theorem of_parseTimestamp (py : Python) (now : Clock) (defaultYear : Option Nat) (value : Value) :
    Verdict.of (Timeutil.parseTimestamp py.toTimeParsers now defaultYear value) = timeVerdict py now defaultYear value := by
  cases value with
  | datetime d => simp only [Timeutil.parseTimestamp, Verdict.of_map, of_ensureUtc, timeVerdict]
  | int z => simp only [Timeutil.parseTimestamp, Verdict.of_map, of_reprInt, timeVerdict]
  | str raw =>
    rw [Timeutil.parseTimestamp, timeVerdict]
    split
    · rfl
    · exact of_parseText py now defaultYear _
  | list items => exact Verdict.ofExn_attributeError _
  | dict items => exact Verdict.ofExn_attributeError _
  | _ => rfl

theorem of_read (py : Python) (now : Clock) (stamp : Stamp) : Verdict.of (stamp.read py now) = stampVerdict py now stamp := by
  obtain ⟨value, year, format⟩ := stamp
  unfold Stamp.read stampVerdict
  cases format with
  | none => exact of_parseTimestamp py now year value
  | some format =>
    cases value with
    | str text =>
      dsimp only
      cases py.strptime text format with
      | some d =>
        dsimp only
        rw [Verdict.of_map, of_ensureUtc]
      | none => exact of_parseTimestamp py now year _
    | _ => exact of_parseTimestamp py now year _

/-- The timestamps are read one after the other. -/
theorem of_timestamp (py : Python) (now : Clock) (x : Extraction) :
    Verdict.of (x.timestamp py now) = .first (x.stamps.map (stampVerdict py now)) := by
  suffices h : ∀ (stamps : List Stamp) (found : Option Clock),
      Verdict.of (stamps.foldlM (fun _ stamp => stamp.read py now) found) = .first (stamps.map (stampVerdict py now)) from
    h x.stamps none
  intro stamps
  induction stamps with
  | nil => exact fun _ => rfl
  | cons stamp rest ih =>
    intro found
    rw [List.foldlM_cons, Verdict.of_bind fun found' _ => ih found', of_read]
    rfl

/-! ## Structured records -/

/-- Of a text field. -/
def presentVerdict (py : Python) (value : Value) : Verdict := if value.isPresent then strVerdict py value else .fine

/-- Of the environment, where a `ValueError` of `str` is caught on the spot. -/
def environmentVerdict (py : Python) (value : Value) : Verdict :=
  match value with
  | .list _ | .dict _ =>
    match py.reprContainer value with
    | .ok _ => .fine
    | .error exn => if exn.isValueError then .fine else .ofExn exn
  | _ => .fine

/-- Of the values of `_coerce_mapped`, in its order. -/
def mappedVerdict (py : Python) (m : Mapped) : Verdict :=
  .first
    [nameVerdict py (m.get .level), presentVerdict py (m.get .message), presentVerdict py (m.get .service),
      presentVerdict py (m.get .hostname), presentVerdict py (m.get .logger), presentVerdict py (m.get .userId),
      presentVerdict py (m.get .requestId), presentVerdict py (m.get .ipAddress), presentVerdict py (m.get .endpoint),
      presentVerdict py (m.get .userAgent), presentVerdict py (m.get .referrer), environmentVerdict py (m.get .environment),
      nameVerdict py (m.get .httpMethod), intVerdict py (m.get .statusCode), durationVerdict py (m.get .responseTimeMs),
      intVerdict py (m.get .bytesSent)]

theorem of_textField (py : Python) (m : Mapped) (canonical : Canonical) :
    Verdict.of (textField py m canonical) = presentVerdict py (m.get canonical) := by
  unfold textField presentVerdict
  split
  · rw [Verdict.of_map, of_str]
  · rfl

/-- What `str` raises there is a `ValueError` for an integer. -/
theorem of_environmentField (py : Python) (m : Mapped) :
    Verdict.of (environmentField py m) = environmentVerdict py (m.get .environment) := by
  unfold environmentField Mapped.get
  cases m.find? .environment with
  | none => rfl
  | some found =>
    obtain ⟨value, key⟩ := found
    have hcaught : environmentVerdict py value =
        (py.str value).casesOn (fun exn => if exn.isValueError then .fine else .ofExn exn) fun _ => .fine := by
      cases value with
      | int z =>
        simp only [Python.str, reprInt, environmentVerdict]
        split <;> rfl
      | list items =>
        simp only [Python.str, environmentVerdict]
        cases py.reprContainer (.list items) <;> rfl
      | dict items =>
        simp only [Python.str, environmentVerdict]
        cases py.reprContainer (.dict items) <;> rfl
      | _ => rfl
    simp only [Option.map_some, Option.getD_some, hcaught]
    cases py.str value with
    | ok text =>
      dsimp only
      split <;> rfl
    | error exn =>
      dsimp only
      split <;> rfl

theorem of_coerceMapped (py : Python) (m : Mapped) : Verdict.of (coerceMapped py m) = mappedVerdict py m := by
  unfold coerceMapped mappedVerdict Verdict.first
  simp only [List.foldr_cons, List.foldr_nil]
  refine Verdict.of_bind_eq (of_levelCoerce py _) fun level _ => ?_
  refine Verdict.of_bind_eq (of_textField py m _) fun message _ => ?_
  refine Verdict.of_bind_eq (of_textField py m _) fun service _ => ?_
  refine Verdict.of_bind_eq (of_textField py m _) fun hostname _ => ?_
  refine Verdict.of_bind_eq (of_textField py m _) fun logger _ => ?_
  refine Verdict.of_bind_eq (of_textField py m _) fun userId _ => ?_
  refine Verdict.of_bind_eq (of_textField py m _) fun requestId _ => ?_
  refine Verdict.of_bind_eq (of_textField py m _) fun ipAddress _ => ?_
  refine Verdict.of_bind_eq (of_textField py m _) fun endpoint _ => ?_
  refine Verdict.of_bind_eq (of_textField py m _) fun userAgent _ => ?_
  refine Verdict.of_bind_eq (of_textField py m _) fun referrer _ => ?_
  refine Verdict.of_bind_eq (of_environmentField py m) fun environment _ => ?_
  refine Verdict.of_bind_eq (of_methodCoerce py _) fun httpMethod _ => ?_
  refine Verdict.of_bind_eq (of_coerceInt py _) fun status _ => ?_
  refine Verdict.of_bind_eq (of_coerceDurationMs py _ _) fun duration _ => ?_
  exact Verdict.of_bind_eq (of_coerceInt py _) fun size _ => rfl

/-- Of one item of `_fallback_message`. -/
def partVerdict (py : Python) (item : Text × Value) : Verdict :=
  match item.2 with
  | .none | .list _ | .dict _ => .fine
  | value => strVerdict py value

def fallbackVerdict (py : Python) (flat : Dict) : Verdict := .first ((flat.take 12).map (partVerdict py))

/-- The record has no message of its own. -/
def lacksMessage (py : Python) (m : Mapped) : Bool :=
  match textField py m .message with
  | .ok (some (_ :: _)) => false
  | _ => true

/-- Of serialising the record again, when no text of it was given. -/
def rawVerdict (py : Python) (context : ParseContext) (record : Dict) (given : Option Text) : Verdict :=
  if context.keepRaw = true ∧ given = none then .of (py.dumps record) else .fine

/-- Of a record behind its timestamp. -/
def recordVerdict (py : Python) (context : ParseContext) (record : Dict) (given : Option Text) : Verdict :=
  if record = [] then .refused
  else
    let flat := flatten record
    let m := mapStructuredRecord py flat
    (mappedVerdict py m).andThen
      ((if lacksMessage py m then fallbackVerdict py flat else .fine).andThen (rawVerdict py context record given))

theorem Verdict.of_mapM {α β : Type} (f : α → Except Exn β) (l : List α) :
    of (l.mapM f) = first (l.map fun a => of (f a)) := by
  induction l with
  | nil => rfl
  | cons a l ih =>
    rw [List.mapM_cons]
    refine of_bind_eq rfl fun b _ => ?_
    exact (of_bind_pure _ _).trans ih

theorem of_fallbackPart (py : Python) (item : Text × Value) : Verdict.of (fallbackPart py item) = partVerdict py item := by
  obtain ⟨key, value⟩ := item
  cases value with
  | int z => simp only [fallbackPart, Verdict.of_map, of_str, partVerdict]
  | _ => rfl

theorem of_fallbackMessage (py : Python) (flat : Dict) : Verdict.of (fallbackMessage py flat) = fallbackVerdict py flat := by
  rw [fallbackMessage, Verdict.of_map, Verdict.of_mapM, fallbackVerdict]
  exact congrArg Verdict.first (List.map_congr_left fun item _ => of_fallbackPart py item)

theorem of_rawText (py : Python) (context : ParseContext) (record : Dict) (given : Option Text) :
    Verdict.of (rawText py context record given) = rawVerdict py context record given := by
  unfold rawText rawVerdict
  cases context.keepRaw <;> cases given <;> simp

theorem message_of_coerceMapped {py : Python} {m : Mapped} {fields : Fields} {environment : Option Environment}
    (h : coerceMapped py m = .ok (fields, environment)) :
    ∃ message, textField py m .message = .ok message ∧ fields.message = message.getD [] := by
  unfold coerceMapped at h
  obtain ⟨level, -, h⟩ := Lib.bind_ok.1 h
  obtain ⟨message, hmessage, h⟩ := Lib.bind_ok.1 h
  refine ⟨message, hmessage, ?_⟩
  iterate 9 obtain ⟨_, -, h⟩ := Lib.bind_ok.1 h
  obtain ⟨⟨environment, metadata⟩, -, h⟩ := Lib.bind_ok.1 h
  iterate 4 obtain ⟨_, -, h⟩ := Lib.bind_ok.1 h
  cases h
  rfl

theorem message_eq_nil {py : Python} {m : Mapped} {fields : Fields} {environment : Option Environment}
    (h : coerceMapped py m = .ok (fields, environment)) : fields.message = [] ↔ lacksMessage py m = true := by
  obtain ⟨message, hmessage, hfields⟩ := message_of_coerceMapped h
  rw [hfields, lacksMessage, hmessage]
  rcases message with _ | _ | _ <;> simp

theorem of_parseRecord (py : Python) (context : ParseContext) (record : Dict) (given : Option Text) :
    Verdict.of (parseRecord py record context given).outcome = recordVerdict py context record given := by
  unfold parseRecord recordVerdict
  by_cases hempty : record = []
  · rw [if_pos hempty, if_pos hempty]
    rfl
  · rw [if_neg hempty, if_neg hempty]
    dsimp only
    refine Verdict.of_bind_eq (of_coerceMapped py _) fun mapped hmapped => ?_
    obtain ⟨fields, environment⟩ := mapped
    dsimp only
    refine Verdict.of_bind_eq ?_ fun message _ => ?_
    · unfold recordMessage
      by_cases hmessage : fields.message = []
      · rw [if_pos hmessage, if_pos ((message_eq_nil hmapped).1 hmessage), of_fallbackMessage]
      · rw [if_neg hmessage, if_neg (mt (message_eq_nil hmapped).2 hmessage), Verdict.of_ok]
    · exact (Verdict.of_bind_pure _ _).trans (of_rawText py context record given)

end LogAnalytics
