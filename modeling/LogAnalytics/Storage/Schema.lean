import LogAnalytics.Pipeline.Assembly
import LogAnalytics.Storage.Parquet
import LogAnalytics.Transformation.Enrichment
import LogAnalytics.Validation.Validators
/-!
# Rows and their columns

`LogEvent.to_row` and the Arrow schema it is stored under. The limits of the model, the rules
of the validator and the types of the columns are three lists; `storable_iff` compares them.
-/

namespace LogAnalytics

/-! ## The Arrow schema -/

inductive ArrowType where
  /-- `pa.string()` -/
  | string
  /-- `pa.dictionary(pa.int32(), pa.string())` -/
  | dictString
  /-- `pa.timestamp("us", tz="UTC")` -/
  | timestamp
  | int16
  | int64
  | float64
  deriving DecidableEq

/-- An integer of so many bits. -/
def fitsBits (bits : Nat) (z : Int) : Bool := -2 ^ (bits - 1) ≤ z && z < 2 ^ (bits - 1)

/-- The values of a type: text is UTF-8, a time counts from 1970 in 64 bits. -/
def ArrowType.holds : ArrowType → Value → Bool
  | .string, .str t | .dictString, .str t => Text.encodable t
  | .timestamp, .datetime d => fitsBits 64 (d.instant - Timeutil.epochMicros)
  | .int16, .int z => fitsBits 16 z
  | .int64, .int z => fitsBits 64 z
  | .float64, .float _ => true
  | _, _ => false

structure ArrowField where
  name : String
  type : ArrowType
  nullable : Bool := true

def ArrowField.holds (f : ArrowField) : Value → Bool
  | .none => f.nullable
  | value => f.type.holds value

def logEventArrowSchema : List ArrowField := [
  { name := "event_id", type := .string, nullable := false },
  { name := "timestamp", type := .timestamp, nullable := false },
  { name := "ingested_at", type := .timestamp, nullable := false },
  { name := "source", type := .string },
  { name := "source_type", type := .dictString },
  { name := "service", type := .dictString },
  { name := "hostname", type := .dictString },
  { name := "environment", type := .dictString },
  { name := "level", type := .dictString },
  { name := "logger", type := .dictString },
  { name := "message", type := .string },
  { name := "ip_address", type := .string },
  { name := "user_id", type := .string },
  { name := "request_id", type := .string },
  { name := "http_method", type := .dictString },
  { name := "endpoint", type := .string },
  { name := "status_code", type := .int16 },
  { name := "response_time_ms", type := .float64 },
  { name := "bytes_sent", type := .int64 },
  { name := "user_agent", type := .string },
  { name := "referrer", type := .string },
  { name := "metadata", type := .string },
  { name := "raw_message", type := .string },
  { name := "parser", type := .dictString }]

/-! ## Rows -/

/-- The constructor with an event id of the caller's; `LogEvent.build` is it without one. -/
def LogEvent.construct (py : Python) (eventId : String) (timestamp ingestedAt : Clock) (b : EventBody) :
    Except Exn LogEvent :=
  let b := b.prepare py
  if eventId.length ≤ 64 ∧ b.wellFormed then
    .ok { eventId := if eventId = "" then computeEventId py timestamp b else eventId
          timestamp := timestamp, ingestedAt := ingestedAt, body := b }
  else .error ⟨.validationError, py.refusal⟩

theorem LogEvent.build_eq_construct (py : Python) (now timestamp : Clock) (b : EventBody) :
    build py now timestamp b = construct py "" timestamp now b := by
  unfold build construct
  simp

/-- Every column takes its value of the row. -/
def conforms (row : List (String × Value)) : Bool :=
  logEventArrowSchema.all fun field => field.holds ((row.lookup field.name).getD .none)

/-- What the values of a batch raise in `_append`: `to_row`, or Arrow with `refusal`. -/
def valueFault (dumps : Dict → Except Exn Text) (refusal : Exn) (events : List LogEvent) : Option (AppendStep × Exn) :=
  match events.mapM (LogEvent.toRow dumps) with
  | .error exn => some (.toRows, exn)
  | .ok rows => if rows.all conforms then none else some (.toTable, refusal)

/-- The event has a row, and the row conforms. -/
def Storable (dumps : Dict → Except Exn Text) (event : LogEvent) : Prop :=
  ∃ row, event.toRow dumps = .ok row ∧ conforms row = true

/-- The event was constructed and passed validation. -/
def Accepted (py : Python) (repr : PyFloat → String) (cfg : ValidationSettings) (event : LogEvent) : Prop :=
  (∃ eventId timestamp ingestedAt b, LogEvent.construct py eventId timestamp ingestedAt b = .ok event) ∧
    ∃ now result, RecordValidator.validate py repr cfg now event = .ok result ∧ result.valid = true

/-- Its byte count fits the column, and its metadata can be rendered. -/
def Narrow (dumps : Dict → Except Exn Text) (event : LogEvent) : Prop :=
  (∀ n, event.body.bytesSent = some n → n < 2 ^ 63) ∧
    (event.body.metadata = [] ∨ ∃ text, dumps event.body.metadata = .ok text)

/-! ## The three lists compared -/

section
variable {py : Python} {repr : PyFloat → String} {cfg : ValidationSettings} {dumps : Dict → Except Exn Text}

theorem Accepted.wellFormed {event : LogEvent} (h : Accepted py repr cfg event) : event.body.wellFormed = true := by
  obtain ⟨⟨eventId, timestamp, ingestedAt, b, hconstruct⟩, -⟩ := h
  unfold LogEvent.construct at hconstruct
  dsimp only at hconstruct
  split at hconstruct
  · next hformed =>
    cases hconstruct
    exact hformed.2
  · cases hconstruct

@[simp] theorem holds_time (name : String) (nullable : Bool) (c : Clock) :
    (ArrowField.mk name .timestamp nullable).holds (.datetime { clock := c, offset := some 0 }) = true := by
  have hlt := c.lt_end
  have hend : (endMicros : Int) < 2 ^ 63 := by decide
  have hepoch : (Timeutil.epochMicros : Int) < 2 ^ 63 := by decide
  simp [ArrowField.holds, ArrowType.holds, fitsBits, Datetime.instant]
  omega

@[simp] theorem holds_str (name : String) (nullable : Bool) (t : Text) :
    (ArrowField.mk name .string nullable).holds (.str t) = Text.encodable t := rfl

@[simp] theorem holds_dictStr (name : String) (nullable : Bool) (t : Text) :
    (ArrowField.mk name .dictString nullable).holds (.str t) = Text.encodable t := rfl

@[simp] theorem holds_ofText (name : String) (t : Option Text) :
    (ArrowField.mk name .string true).holds (.ofText t) = t.all Text.encodable := by
  cases t <;> rfl

@[simp] theorem holds_dictOfText (name : String) (t : Option Text) :
    (ArrowField.mk name .dictString true).holds (.ofText t) = t.all Text.encodable := by
  cases t <;> rfl

@[simp] theorem holds_int16 (name : String) (z : Option Int) :
    (ArrowField.mk name .int16 true).holds (z.elim .none .int) = z.all (fitsBits 16) := by
  cases z <;> rfl

@[simp] theorem holds_int64 (name : String) (z : Option Int) :
    (ArrowField.mk name .int64 true).holds (z.elim .none .int) = z.all (fitsBits 64) := by
  cases z <;> rfl

@[simp] theorem holds_float64 (name : String) (f : Option PyFloat) :
    (ArrowField.mk name .float64 true).holds (f.elim .none .float) = true := by
  cases f <;> rfl

/-- ASCII text is UTF-8. -/
theorem encodable_of_isAscii {t : Text} (h : t.isAscii = true) : Text.encodable t = true := by
  rw [Text.isAscii, List.all_eq_true] at h
  rw [Text.encodable, List.all_eq_true]
  intro c hc
  have hlt := of_decide_eq_true (h c hc)
  simp only [Text.isSurrogate, Bool.not_eq_true', Bool.and_eq_false_imp, decide_eq_true_eq, decide_eq_false_iff_not]
  omega

/-- The metadata column is ASCII or empty. -/
theorem holds_metadataColumn (hdumps : ∀ metadata text, dumps metadata = .ok text → text.isAscii = true) (name : String)
    {metadata : Dict} {value : Value} (h : metadataColumn dumps metadata = .ok value) :
    (ArrowField.mk name .string true).holds value = true := by
  unfold metadataColumn at h
  split at h
  · cases h
    rfl
  · cases ht : dumps metadata with
    | error exn => simp [ht, Except.map] at h
    | ok text =>
      simp only [ht, Except.map, Except.ok.injEq] at h
      subst h
      exact encodable_of_isAscii (hdumps metadata text ht)

/-- What the constraints of the model say of the texts and numbers of an event. -/
structure Constrained (b : EventBody) : Prop where
  texts : ∀ x ∈ b.texts, Text.encodable x.2 = true
  statusCode : b.statusCode.all (fitsBits 16) = true
  bytesSent : b.bytesSent.all (0 ≤ ·) = true

theorem constrained {b : EventBody} (h : b.wellFormed = true) : Constrained b := by
  simp only [EventBody.wellFormed, Bool.and_eq_true] at h
  obtain ⟨⟨⟨⟨htexts, -⟩, hstatus⟩, -⟩, hbytes⟩ := h
  refine ⟨fun x hx => (Bool.and_eq_true _ _ ▸ List.all_eq_true.1 htexts x hx : _ ∧ _).1, ?_, hbytes⟩
  cases hcode : b.statusCode with
  | none => rfl
  | some code =>
    rw [hcode] at hstatus
    simp [fitsBits] at hstatus ⊢
    omega

theorem Constrained.optional {b : EventBody} (h : Constrained b) {n : Nat} {t : Option Text}
    (ht : (n, t) ∈ [(255, b.service), (255, b.hostname), (255, b.logger), (255, b.ipAddress), (255, b.userId),
      (255, b.requestId), (2048, b.endpoint), (1024, b.userAgent), (2048, b.referrer)]) : t.all Text.encodable = true := by
  cases t with
  | none => rfl
  | some text => exact h.texts (n, text) (List.mem_append_right _ (List.mem_filterMap.2 ⟨_, ht, rfl⟩))

/-- The row of a constrained event conforms in all columns but one. -/
theorem conforms_toRow {event : LogEvent} (h : Constrained event.body)
    (hdumps : ∀ metadata text, dumps metadata = .ok text → text.isAscii = true) {row : List (String × Value)}
    (hrow : event.toRow dumps = .ok row) :
    conforms row = true ↔ ∀ n, event.body.bytesSent = some n → n < 2 ^ 63 := by
  have hsource := h.texts (255, event.body.source) (by simp [EventBody.texts])
  have hmessage := h.texts (EventBody.maxMessageLength, event.body.message) (by simp [EventBody.texts])
  have hraw := h.texts (EventBody.maxRawLength, event.body.rawMessage) (by simp [EventBody.texts])
  have hparser := h.texts (255, event.body.parser) (by simp [EventBody.texts])
  have hservice := h.optional (n := 255) (t := event.body.service) (by simp)
  have hhostname := h.optional (n := 255) (t := event.body.hostname) (by simp)
  have hlogger := h.optional (n := 255) (t := event.body.logger) (by simp)
  have hip := h.optional (n := 255) (t := event.body.ipAddress) (by simp)
  have huser := h.optional (n := 255) (t := event.body.userId) (by simp)
  have hrequest := h.optional (n := 255) (t := event.body.requestId) (by simp)
  have hendpoint := h.optional (n := 2048) (t := event.body.endpoint) (by simp)
  have hagent := h.optional (n := 1024) (t := event.body.userAgent) (by simp)
  have hreferrer := h.optional (n := 2048) (t := event.body.referrer) (by simp)
  have hmethod : (event.body.httpMethod.map fun method => Text.ofString method.toStr).all Text.encodable = true := by
    cases event.body.httpMethod with
    | none => rfl
    | some method => exact Text.encodable_ofString _
  have hbytes := h.bytesSent
  unfold LogEvent.toRow at hrow
  cases hm : metadataColumn dumps event.body.metadata with
  | error exn => simp [hm, Except.map] at hrow
  | ok metadata =>
    have hmetadata := holds_metadataColumn hdumps "metadata" hm
    simp only [hm, Except.map, Except.ok.injEq] at hrow
    subst hrow
    simp only [conforms, logEventArrowSchema, List.lookup_cons, List.all_cons, List.all_nil]
    simp only [String.reduceBEq, Option.getD_some, holds_time, holds_str, holds_dictStr, holds_ofText, holds_dictOfText,
      holds_int16, holds_int64, holds_float64, Text.encodable_ofString, h.statusCode, hsource, hmessage, hraw, hparser,
      hservice, hhostname, hlogger, hip, huser, hrequest, hendpoint, hagent, hreferrer, hmethod, hmetadata, Bool.true_and,
      Bool.and_true]
    cases hcount : event.body.bytesSent with
    | none => simp
    | some n =>
      rw [hcount] at hbytes
      simp [fitsBits] at hbytes ⊢
      omega

theorem toRow_returns {event : LogEvent} :
    (∃ row, event.toRow dumps = .ok row) ↔ event.body.metadata = [] ∨ ∃ text, dumps event.body.metadata = .ok text := by
  unfold LogEvent.toRow metadataColumn
  by_cases hempty : event.body.metadata = []
  · simp [hempty, Except.map]
  · simp only [List.isEmpty_iff, hempty, if_false, false_or]
    cases dumps event.body.metadata with
    | error exn => simp [Except.map]
    | ok text => simp [Except.map]

theorem storable_iff {event : LogEvent} (h : Accepted py repr cfg event)
    (hdumps : ∀ metadata text, dumps metadata = .ok text → text.isAscii = true) :
    Storable dumps event ↔ Narrow dumps event := by
  have hconstrained := constrained h.wellFormed
  constructor
  · rintro ⟨row, hrow, hconforms⟩
    exact ⟨(conforms_toRow hconstrained hdumps hrow).1 hconforms, toRow_returns.1 ⟨row, hrow⟩⟩
  · rintro ⟨hbytes, hmetadata⟩
    obtain ⟨row, hrow⟩ := toRow_returns.2 hmetadata
    exact ⟨row, hrow, (conforms_toRow hconstrained hdumps hrow).2 hbytes⟩

/-- The values of a batch raise nothing when each of its events can be stored. -/
theorem valueFault_eq_none {refusal : Exn} {events : List LogEvent} :
    valueFault dumps refusal events = none ↔ ∀ event ∈ events, Storable dumps event := by
  have hrows : (∃ rows, events.mapM (LogEvent.toRow dumps) = .ok rows ∧ rows.all conforms = true) ↔
      ∀ event ∈ events, Storable dumps event := by
    induction events with
    | nil => simp [pure, Except.pure]
    | cons event events ih =>
      rw [List.forall_mem_cons, ← ih, List.mapM_cons]
      cases hrow : event.toRow dumps with
      | error exn => simp [Storable, hrow, Bind.bind, Except.bind]
      | ok row =>
        cases hrest : events.mapM (LogEvent.toRow dumps) with
        | error exn => simp [Bind.bind, Except.bind]
        | ok rows => simp [Storable, hrow, Bind.bind, Except.bind, pure, Except.pure]
  rw [← hrows]
  unfold valueFault
  cases events.mapM (LogEvent.toRow dumps) with
  | error exn => simp
  | ok rows => simp

/-- `_append` writes the batch when its values raise nothing. -/
theorem append_valueFault {D : Type} [DecidableEq D] {refusal : Exn} {events : List LogEvent} (s : ParquetStore D LogEvent)
    (path : PartName D) :
    (ParquetStore.append (valueFault dumps refusal events) s path events).1 = .ok () ↔ valueFault dumps refusal events = none := by
  have hopen : ∀ fault : Option (AppendStep × Exn), (∀ e, fault ≠ some (.ensureDirectory, e) ∧ fault ≠ some (.openWriter, e)) →
      (ParquetStore.openWriter fault s path).1 = .ok () := by
    intro fault hsteps
    unfold ParquetStore.openWriter
    split
    · rfl
    · split
      · next exn => exact absurd rfl (hsteps exn).1
      · next exn => exact absurd rfl (hsteps exn).2
      · rfl
  have hsteps : ∀ e, valueFault dumps refusal events ≠ some (.ensureDirectory, e) ∧
      valueFault dumps refusal events ≠ some (.openWriter, e) := by
    intro e
    unfold valueFault
    split
    · simp
    · split <;> simp
  have hcases : valueFault dumps refusal events = none ∨ (∃ e, valueFault dumps refusal events = some (.toRows, e)) ∨
      ∃ e, valueFault dumps refusal events = some (.toTable, e) := by
    unfold valueFault
    split
    · exact .inr (.inl ⟨_, rfl⟩)
    · split
      · exact .inl rfl
      · exact .inr (.inr ⟨_, rfl⟩)
  have hok := hopen _ hsteps
  unfold ParquetStore.append
  rcases hopened : ParquetStore.openWriter (valueFault dumps refusal events) s path with ⟨r, t⟩
  rw [hopened] at hok
  obtain rfl : r = .ok () := hok
  rcases hcases with h | ⟨e, h⟩ | ⟨e, h⟩ <;> simp [h]

/-- Which accepted events can be stored, and which batches of them `_append` writes. -/
theorem storable_batches {D : Type} [DecidableEq D] {events : List LogEvent} (haccepted : ∀ event ∈ events, Accepted py repr cfg event)
    (hdumps : ∀ metadata text, dumps metadata = .ok text → text.isAscii = true) (refusal : Exn)
    (s : ParquetStore D LogEvent) (path : PartName D) :
    (∀ event ∈ events, Storable dumps event ↔ Narrow dumps event) ∧
    ((ParquetStore.append (valueFault dumps refusal events) s path events).1 = .ok () ↔ ∀ event ∈ events, Narrow dumps event) := by
  have heach : ∀ event ∈ events, Storable dumps event ↔ Narrow dumps event := fun event h => storable_iff (haccepted event h) hdumps
  refine ⟨heach, ?_⟩
  rw [append_valueFault, valueFault_eq_none]
  exact forall₂_congr heach

end

/-! ## A count that fits no column -/

/-- An event of one request, and what it sent. -/
def requestEvent (bytes : Int) : LogEvent where
  eventId := "e1"
  timestamp := Timeutil.minTimestamp
  ingestedAt := Timeutil.minTimestamp
  body := {
    source := Text.ofString "access.log", message := Text.ofString "GET /", bytesSent := some bytes
    sourceType := .file, environment := .unknown, rawMessage := [], parser := Text.ofString "json" }

/-- It is accepted whatever the count. -/
theorem accepted_requestEvent {bytes : Int} (h : 0 ≤ bytes) :
    Accepted (LogPipeline.plainPython LogPipeline.spelled) (fun _ => "") {} (requestEvent bytes) := by
  have htrim : (requestEvent bytes).body.prepare (LogPipeline.plainPython LogPipeline.spelled) = (requestEvent bytes).body := by
    have hsource : (Text.ofString "access.log").trim = Text.ofString "access.log" := by decide
    have hmessage : (Text.ofString "GET /").trim = Text.ofString "GET /" := by decide
    have hparser : (Text.ofString "json").trim = Text.ofString "json" := by decide
    have hraw : Text.trim [] = [] := rfl
    simp only [EventBody.prepare, requestEvent, hsource, hmessage, hparser, hraw]
    rfl
  have hformed : (requestEvent bytes).body.wellFormed = true := by
    have htexts : (requestEvent 0).body.texts.all (fun x => Text.encodable x.2 && x.2.length ≤ x.1) = true := by
      decide
    have hsame : (requestEvent bytes).body.texts = (requestEvent 0).body.texts := rfl
    rw [EventBody.wellFormed, hsame, htexts]
    simpa [requestEvent] using h
  refine ⟨⟨"e1", Timeutil.minTimestamp, Timeutil.minTimestamp, (requestEvent bytes).body, ?_⟩, Timeutil.minTimestamp, ?_⟩
  · unfold LogEvent.construct
    dsimp only
    rw [htrim, if_pos ⟨by decide, hformed⟩, if_neg (by decide)]
    rfl
  · have hrange : Timeutil.minTimestamp ≤ Timeutil.minTimestamp ∧ Timeutil.minTimestamp ≤ Timeutil.maxTimestamp := by
      decide
    refine RecordValidator.validate_valid.2 ⟨⟨hrange.1, hrange.2, ?_⟩, ?_⟩
    · refine ⟨⟨(Timeutil.minTimestamp.micros + 300 * 10 ^ 6), by decide⟩,
        ⟨(Timeutil.minTimestamp.micros - 3650 * dayMicros), by decide⟩, ?_, ?_, ?_⟩
      · exact Clock.ofMicros_ok.2 (by decide)
      · exact Nat.le_add_right _ _
      · exact Clock.ofMicros_ok.2 (by decide)
    · have hbody : RecordValidator.soundBody (LogPipeline.plainPython LogPipeline.spelled) (fun _ => "") {} (requestEvent bytes).body =
          RecordValidator.soundBody (LogPipeline.plainPython LogPipeline.spelled) (fun _ => "") {} (requestEvent 0).body := rfl
      rw [hbody]
      decide

theorem storable_batches_small :
    (ParquetStore.append (valueFault (fun _ => .ok []) ⟨.valueError, "ArrowInvalid"⟩ [requestEvent 512]) ⟨∅, [], 0, []⟩
      ("2026-08-07", "adhoc") [requestEvent 512]).1 = .ok () := by
  have haccepted : ∀ event ∈ [requestEvent 512],
      Accepted (LogPipeline.plainPython LogPipeline.spelled) (fun _ => "") {} event := by
    rw [List.forall_mem_singleton]
    exact accepted_requestEvent (by decide)
  refine (storable_batches haccepted ?_ _ _ _).2.2 ?_
  · intro _ text htext
    cases htext
    rfl
  · rw [List.forall_mem_singleton]
    exact ⟨by simp [requestEvent], .inl rfl⟩

/-- An accepted event with a count of `2 ^ 63` bytes, and the batch it is in. -/
theorem oversized_count_fails :
    Accepted (LogPipeline.plainPython LogPipeline.spelled) (fun _ => "") {} (requestEvent (2 ^ 63)) ∧
    ¬Storable (fun _ => .ok []) (requestEvent (2 ^ 63)) ∧
    (ParquetStore.append (valueFault (fun _ => .ok []) ⟨.valueError, "ArrowInvalid"⟩ [requestEvent 512, requestEvent (2 ^ 63)])
      ⟨∅, [], 0, []⟩ ("2026-08-07", "adhoc") [requestEvent 512, requestEvent (2 ^ 63)]).1 ≠ .ok () := by
  have hno : ¬Storable (fun _ => .ok []) (requestEvent (2 ^ 63)) := by
    rw [storable_iff (accepted_requestEvent (by decide)) fun _ text htext => by cases htext; rfl]
    intro h
    exact absurd (h.1 (2 ^ 63) rfl) (lt_irrefl _)
  refine ⟨accepted_requestEvent (by decide), hno, fun hok => hno ?_⟩
  exact valueFault_eq_none.1 ((append_valueFault _ _).1 hok) _ (by simp)

end LogAnalytics
