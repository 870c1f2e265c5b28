import LogAnalytics.Lib.Loops
import LogAnalytics.Parsers.Structured
/-!
# What a structured record maps to

`map_structured_record` as a whole. A canonical field depends on the first key of the record that
is an alias of it, and on nothing else; the fields are read in a fixed order, and the first that
raises ends the mapping.
-/

namespace LogAnalytics

/-- The value of a canonical field. -/
inductive FieldValue where
  | timestamp (t : Option Clock)
  | level (level : LogLevel)
  | message (t : Text)
  | text (t : Option Text)
  | environment (e : Option Environment)
  | method (m : Option HttpMethod)
  | number (z : Option Int)
  | duration (f : Option PyFloat)

/-- The field is set. -/
def FieldValue.isSome : FieldValue → Bool
  | timestamp t => t.isSome
  | level _ => true
  | message t => t ≠ []
  | text t => t.isSome
  | environment e => e.isSome
  | method m => m.isSome
  | number z => z.isSome
  | duration f => f.isSome

/-- What `map_structured_record` returns; the metadata is one of the fields. -/
structure MappedRecord where
  timestamp : Option Clock
  fields : Fields
  environment : Option Environment

/-- `map_structured_record` -/
def mapRecord (py : Python) (now : Clock) (record : Dict) : Except Exn MappedRecord := do
  let m := mapStructuredRecord py record
  let timestamp ← Timeutil.parseTimestamp py.toTimeParsers now none (m.get .timestamp)
  let (fields, environment) ← coerceMapped py m
  return { timestamp := timestamp, fields := fields, environment := environment }

namespace MappedRecord

def field (out : MappedRecord) : Canonical → FieldValue
  | .timestamp => .timestamp out.timestamp
  | .level => .level out.fields.level
  | .message => .message out.fields.message
  | .service => .text out.fields.service
  | .hostname => .text out.fields.hostname
  | .environment => .environment out.environment
  | .logger => .text out.fields.logger
  | .ipAddress => .text out.fields.ipAddress
  | .userId => .text out.fields.userId
  | .requestId => .text out.fields.requestId
  | .httpMethod => .method out.fields.httpMethod
  | .endpoint => .text out.fields.endpoint
  | .statusCode => .number out.fields.statusCode
  | .responseTimeMs => .duration out.fields.responseTimeMs
  | .bytesSent => .number out.fields.bytesSent
  | .userAgent => .text out.fields.userAgent
  | .referrer => .text out.fields.referrer

/-- The fields in the order in which `_coerce_mapped` reads them. -/
def readingOrder : List Canonical := [.timestamp, .level, .message, .service, .hostname, .logger, .userId, .requestId,
  .ipAddress, .endpoint, .userAgent, .referrer, .environment, .httpMethod, .statusCode, .responseTimeMs, .bytesSent]

theorem mem_readingOrder (canonical : Canonical) : canonical ∈ readingOrder := by
  cases canonical <;> decide

theorem readingOrder_nodup : readingOrder.Nodup := by decide

def canonicalFields (out : MappedRecord) : List FieldValue := readingOrder.map out.field

end MappedRecord

/-! ## One field -/

/-- The field a key of a record is an alias of. -/
def fieldOf (py : Python) (key : Text) : Option Canonical :=
  (aliasIndex.find? fun x => Text.ofString x.1 = normaliseKey py key).map (·.2)

/-- `str(value)` of a value that is there. -/
def textValue (py : Python) (value : Value) : Except Exn (Option Text) :=
  if value.isPresent then (py.str value).map some else .ok none

def environmentValue (py : Python) (value : Value) : Except Exn (Option Environment) :=
  match py.str value with
  | .error exn => if exn.isValueError then .ok none else .error exn
  | .ok text => .ok (Environment.members.find? fun env => Text.ofString env.toStr = py.textCase.lower text)

/-- What `_coerce_mapped` makes of the value found for a field and the key it was found under. -/
def coerceField (py : Python) (now : Clock) (canonical : Canonical) (found : Option (Value × Text)) : Except Exn FieldValue :=
  let value := (found.map (·.1)).getD .none
  match canonical with
  | .timestamp => (Timeutil.parseTimestamp py.toTimeParsers now none value).map .timestamp
  | .level => (LogLevel.coerce py value).map .level
  | .message => (textValue py value).map fun text => .message (text.getD [])
  | .environment =>
    match found with
    | none => .ok (.environment none)
    | some (value, _) => (environmentValue py value).map .environment
  | .httpMethod => (HttpMethod.coerce py value).map .method
  | .statusCode => (coerceInt py value).map fun z => .number (z.filter inStatusRange)
  | .responseTimeMs => (coerceDurationMs py value (found.map (·.2))).map .duration
  | .bytesSent => (coerceInt py value).map fun z => .number (z.filter (0 ≤ ·))
  | _ => (textValue py value).map .text

/-- What an item of a record gives the field its key is an alias of. -/
def coerceItem (py : Python) (now : Clock) (canonical : Canonical) (item : Text × Value) : Except Exn FieldValue :=
  coerceField py now canonical (some (item.2, normaliseKey py item.1))

/-- The item a field is taken from: the first whose key is an alias. -/
def taken (py : Python) (record : Dict) (canonical : Canonical) : Option (Text × Value) :=
  record.find? fun item => fieldOf py item.1 = some canonical

def takenField (py : Python) (now : Clock) (record : Dict) (canonical : Canonical) : Except Exn FieldValue :=
  coerceField py now canonical ((taken py record canonical).map fun item => (item.2, normaliseKey py item.1))

variable {py : Python} {now : Clock} {record : Dict}

/-! ## The loop -/

theorem find?_mapField (m : Mapped) (item : Text × Value) (canonical : Canonical) :
    (mapField py m item).find? canonical =
      (m.find? canonical).or (if fieldOf py item.1 = some canonical then some (item.2, normaliseKey py item.1) else none) := by
  unfold mapField fieldOf
  dsimp only
  cases hfield : (aliasIndex.find? fun x => Text.ofString x.1 = normaliseKey py item.1).map (·.2) with
  | none =>
    dsimp only
    split <;> simp [Mapped.find?]
  | some c =>
    dsimp only
    by_cases htaken : (m.find? c).isSome = true
    · rw [if_pos htaken]
      have hfind : (m.find? canonical).or (if some c = some canonical then some (item.2, normaliseKey py item.1) else none) =
          m.find? canonical := by
        by_cases hc : c = canonical
        · subst hc
          obtain ⟨x, hx⟩ := Option.isSome_iff_exists.1 htaken
          rw [hx, Option.some_or]
        · simp [hc]
      rw [hfind]
      split <;> rfl
    · rw [if_neg htaken, Mapped.find?, Mapped.find?, List.find?_append]
      by_cases hc : c = canonical
      · subst hc
        cases m.fields.find? (·.1 = c) <;> simp
      · cases m.fields.find? (·.1 = canonical) <;> simp [hc]

theorem find?_foldl_mapField (m : Mapped) (canonical : Canonical) :
    (record.foldl (mapField py) m).find? canonical =
      (m.find? canonical).or ((taken py record canonical).map fun item => (item.2, normaliseKey py item.1)) := by
  induction record generalizing m with
  | nil => simp [taken]
  | cons item record ih =>
    rw [List.foldl_cons, ih, find?_mapField, Option.or_assoc]
    congr 1
    unfold taken
    rw [List.find?_cons]
    by_cases hfield : fieldOf py item.1 = some canonical
    · simp [hfield]
    · simp [hfield]

/-- A field has what was found under the first alias. -/
theorem find?_mapStructuredRecord (canonical : Canonical) :
    (mapStructuredRecord py record).find? canonical =
      (taken py record canonical).map fun item => (item.2, normaliseKey py item.1) := by
  rw [mapStructuredRecord, find?_foldl_mapField]
  rfl

/-! ## The fields -/

/-- A value that is no environment is put in the metadata as it is. -/
theorem environmentField_some {m : Mapped} {value : Value} {key : Text} (h : m.find? .environment = some (value, key)) :
    environmentField py m = (environmentValue py value).map fun environment =>
      (environment, if environment = none then m.metadata.set (Text.ofString "environment_raw") value else m.metadata) := by
  unfold environmentField environmentValue
  rw [h]
  dsimp only
  cases py.str value with
  | error exn =>
    dsimp only
    split <;> rfl
  | ok text =>
    dsimp only
    cases Environment.members.find? fun env => Text.ofString env.toStr = py.textCase.lower text <;> rfl

theorem environmentField_fst (m : Mapped) :
    (environmentField py m).map (fun x => FieldValue.environment x.1) =
      coerceField py now .environment (m.find? .environment) := by
  cases hfound : m.find? .environment with
  | none =>
    rw [environmentField, hfound]
    rfl
  | some found =>
    rw [environmentField_some hfound]
    change _ = (environmentValue py found.1).map FieldValue.environment
    cases environmentValue py found.1 <;> rfl

/-- One more field is read on both sides; `read` are those before it. -/
theorem read_field {α β : Type} {x : Except Exn α} (w : α → FieldValue) {g : α → Except Exn β} {k : β → List FieldValue}
    {c : Canonical} {cs : List Canonical} {f : Canonical → Except Exn FieldValue} (hx : f c = x.map w)
    {read : List FieldValue} (hrest : ∀ a, (g a).map k = (cs.mapM f).map ((read ++ [w a]) ++ ·)) :
    (x >>= g).map k = ((c :: cs).mapM f).map (read ++ ·) := by
  rw [List.mapM_cons, hx]
  cases x with
  | error exn => rfl
  | ok a =>
    refine (hrest a).trans ?_
    change _ = (cs.mapM f >>= fun vs => pure (w a :: vs)).map (read ++ ·)
    cases cs.mapM f with
    | error exn => rfl
    | ok vs => exact congrArg Except.ok (List.append_assoc read [w a] vs)

/-- The canonical fields are read one after the other. -/
theorem canonicalFields_mapRecord (py : Python) (now : Clock) (record : Dict) :
    (mapRecord py now record).map MappedRecord.canonicalFields =
      MappedRecord.readingOrder.mapM (takenField py now record) := by
  have hfound : takenField py now record = fun c => coerceField py now c ((mapStructuredRecord py record).find? c) := by
    funext c
    rw [find?_mapStructuredRecord]
    rfl
  have hnil : ∀ x : Except Exn (List FieldValue), x = x.map (([] : List FieldValue) ++ ·) := fun x => by cases x <;> rfl
  rw [hfound, hnil (List.mapM _ _)]
  unfold mapRecord coerceMapped MappedRecord.readingOrder
  generalize mapStructuredRecord py record = m
  simp only [bind_assoc]
  refine read_field .timestamp rfl fun timestamp => ?_
  refine read_field .level rfl fun level => ?_
  refine read_field (fun text => .message (text.getD [])) rfl fun message => ?_
  refine read_field .text rfl fun service => ?_
  refine read_field .text rfl fun hostname => ?_
  refine read_field .text rfl fun logger => ?_
  refine read_field .text rfl fun userId => ?_
  refine read_field .text rfl fun requestId => ?_
  refine read_field .text rfl fun ipAddress => ?_
  refine read_field .text rfl fun endpoint => ?_
  refine read_field .text rfl fun userAgent => ?_
  refine read_field .text rfl fun referrer => ?_
  refine read_field (fun x => .environment x.1) (environmentField_fst m).symm fun environment => ?_
  refine read_field .method rfl fun httpMethod => ?_
  refine read_field (fun z => .number (z.filter inStatusRange)) rfl fun status => ?_
  refine read_field .duration rfl fun duration => ?_
  refine read_field (fun z => .number (z.filter (0 ≤ ·))) rfl fun size => ?_
  rw [List.mapM_nil]
  simp only [List.nil_append, List.cons_append]
  rfl

/-- A record that can be mapped: every field is what was taken for it. -/
theorem field_of_mapRecord {out : MappedRecord} (h : mapRecord py now record = .ok out) (canonical : Canonical) :
    takenField py now record canonical = .ok (out.field canonical) := by
  have hfields := canonicalFields_mapRecord py now record
  rw [h] at hfields
  have hall := Lib.mapM_ok.1 hfields.symm
  rw [MappedRecord.canonicalFields, List.forall₂_map_right_iff, List.forall₂_same] at hall
  exact hall canonical (MappedRecord.mem_readingOrder canonical)

theorem mem_of_taken {canonical : Canonical} {item : Text × Value} (h : taken py record canonical = some item) :
    item ∈ record ∧ fieldOf py item.1 = some canonical :=
  ⟨List.mem_of_find?_eq_some h, by simpa using List.find?_some h⟩

theorem taken_eq_none {canonical : Canonical} :
    taken py record canonical = none ↔ ∀ item ∈ record, fieldOf py item.1 ≠ some canonical := by
  simp [taken]

end LogAnalytics
