import LogAnalytics.Parsers.Registry
import LogAnalytics.Pipeline.Assembly
/-!
# What a bad record does

`_parse_one` on a record a parser cannot take. One that is refused leaves a dead letter and a
rejection, if the dead letter can be written; one whose exception escapes ends the run.
-/

namespace LogAnalytics.LogPipeline

variable {K P F : Type}

/-- An event and nothing else, or no event, one dead letter and one rejection. A queue that is
disabled or full only counts. -/
inductive Contained (c : DlqConfig P) (s : ParseState P Clock) :
    Except Exn (Option LogEvent) × ParseState P Clock → Prop
  | event (event : LogEvent) (t : ParseState P Clock) (dlq : t.dlq = s.dlq) (result : t.result = s.result) :
      Contained c s (.ok (some event), t)
  | deadLetter (t : ParseState P Clock) (total : t.dlq.total = s.dlq.total + 1)
      (row : c.enabled = true → s.dlq.written < c.maxRecords → ∃ row, t.dlq.rows = s.dlq.rows ++ [row])
      (rejected : t.result.recordsRejected = s.result.recordsRejected + 1) : Contained c s (.ok none, t)

/-- `record.text` of a payload. -/
def payloadText (py : Python) : Payload Dict → Except Exn Text
  | .text line => .ok line
  | .mapping record => py.dumps record

/-- The dead letter of a record can be written: its text and its source can be encoded, and the
file takes the row. -/
structure Writable (py : Python) (c : DlqConfig P) (env : RecordEnv F Clock) (record : RawRecord Dict)
    (q : DeadLetterQueue P Clock) : Prop where
  raw : ∃ raw, payloadText py record.payload = .ok raw ∧ Text.encodable ((c.maskText raw).take 131072) = true
  source : Text.encodable record.source = true
  append : DeadLetterQueue.CanAppend c env.dlq q

/-- The schema's verdict on the fields a parser has gathered. -/
def schemaVerdict (py : Python) (name : Text) (now : Clock) (context : ParseContext) (x : Extraction) : Verdict :=
  match x.timestamp py now, x.outcome with
  | .ok read, .ok parsed => if ((finalBody name read.isNone parsed context).prepare py).wellFormed then .fine else .refused
  | _, _ => .fine

theorem of_build (py : Python) (now ts : Clock) (body : EventBody) :
    Verdict.of (LogEvent.build py now ts body) = if (body.prepare py).wellFormed then .fine else .refused := by
  unfold LogEvent.build
  dsimp only
  split <;> rfl

theorem of_event (py : Python) (name : Text) (now : Clock) (context : ParseContext) (x : Extraction) :
    Verdict.of (x.event py name now context) =
      (Verdict.first (x.stamps.map (stampVerdict py now))).andThen
        ((Verdict.of x.outcome).andThen (schemaVerdict py name now context x)) := by
  unfold Extraction.event
  refine Verdict.of_bind_eq (of_timestamp py now x) fun read hread => ?_
  refine Verdict.of_bind_eq rfl fun parsed hparsed => ?_
  rw [finalize, of_build, schemaVerdict, hread, hparsed]

/-- A parser of the registry with a transformation chain and a validator. -/
def setupFor (py : Python) (patterns : Patterns) (kind : ParserKind) (transform : EventBody → Except Exn EventBody)
    (repr : PyFloat → String) (settings : ValidationSettings) : Setup where
  py := py
  parser := kind.parser py patterns
  jsonRecord record context := parseRecord py record context none
  transform := transform
  repr := repr
  settings := settings

section
variable (py : Python) (patterns : Patterns) (kind : ParserKind) (transform : EventBody → Except Exn EventBody)
  (repr : PyFloat → String) (settings : ValidationSettings) (base : Stages Dict LogEvent K P Clock)

theorem extraction_setupFor (record : RawRecord Dict) (context : ParseContext) :
    (setupFor py patterns kind transform repr settings).extraction record context =
      kind.extraction py patterns record.payload context := by
  obtain ⟨payload, _, _, _⟩ := record
  cases payload <;> cases kind <;> rfl

/-- The parser that gets a payload, by its name. -/
def nameFor (payload : Payload Dict) : Text :=
  match payload, (kind.parser py patterns).extractRecord with
  | .mapping _, none => Text.ofString "json"
  | _, _ => (kind.parser py patterns).name

/-- The verdict on a record: its timestamps, then its values, then the schema. -/
def recordFate (now : Clock) (payload : Payload Dict) (context : ParseContext) : Verdict :=
  let x := kind.extraction py patterns payload context
  (Verdict.first (x.stamps.map (stampVerdict py now))).andThen
    ((kind.payloadVerdict py patterns payload context).andThen
      (schemaVerdict py (nameFor py patterns kind payload) now context x))

theorem of_parsePayload (now : Clock) (record : RawRecord Dict) (context : ParseContext) :
    Verdict.of (parsePayload ((setupFor py patterns kind transform repr settings).stages base) now record context) =
      recordFate py patterns kind now record.payload context := by
  rw [Setup.parsePayload_eq, extraction_setupFor]
  exact (of_event _ _ _ _ _).trans (by rw [ParserKind.of_outcome]; rfl)

end

section
variable {u : Setup} {base : Stages Dict LogEvent K P Clock} {env : RecordEnv F Clock} {record : RawRecord Dict}
  {s : ParseState P Clock}

theorem not_contained_error {c : DlqConfig P} {exn : Exn} {t : ParseState P Clock} : ¬Contained c s (.error exn, t) := by
  intro h
  cases h

/-- A rejection is contained when the schema takes it and the file takes its row. -/
theorem contained_reject (c : DlqConfig P) (now : Clock) (faults : DlqFaults) (context : ParseContext) (r : Rejection P) :
    Contained c s
        (((reject c now faults { s with context := context } r).1.map fun _ => none),
          (reject c now faults { s with context := context } r).2) ↔
      (∃ row, DeadLetterQueue.rejected c now r = .ok row) ∧ DeadLetterQueue.CanAppend c faults s.dlq := by
  simp only [reject, DeadLetterQueue.record]
  cases hrow : DeadLetterQueue.rejected c now r with
  | error exn => exact ⟨fun h => absurd h not_contained_error, fun h => by simp at h⟩
  | ok row =>
    have hiff : (DeadLetterQueue.write c faults s.dlq row).1 = .ok () ↔ DeadLetterQueue.CanAppend c faults s.dlq :=
      DeadLetterQueue.write_ok_iff
    have htotal := DeadLetterQueue.total_write c faults s.dlq row
    have hrows : DeadLetterQueue.CanAppend c faults s.dlq → c.enabled = true → s.dlq.written < c.maxRecords →
        (DeadLetterQueue.write c faults s.dlq row).2.rows = s.dlq.rows ++ [row] := DeadLetterQueue.rows_write
    rcases hwrite : DeadLetterQueue.write c faults s.dlq row with ⟨_ | _, q⟩
    · rw [hwrite] at hiff
      simp only [hwrite, Except.map]
      refine ⟨fun h => absurd h not_contained_error, fun h => ?_⟩
      cases hiff.2 h.2
    · rw [hwrite] at hiff htotal
      simp only [hwrite] at hrows
      simp only [hwrite, Except.map]
      refine ⟨fun _ => ⟨⟨row, rfl⟩, hiff.1 rfl⟩, fun h => ?_⟩
      exact .deadLetter _ htotal (fun henabled hroom => ⟨row, hrows h.2 henabled hroom⟩) rfl

/-- A record whose exception escapes is not contained. -/
theorem not_contained_of_escapes {c : DlqConfig P} {st : Stages Dict LogEvent K P Clock}
    (h : Verdict.of (parsePayload st env.now record (s.context.enter record)) = .escapes) :
    ¬Contained c s (parseOne st env record s) := by
  cases hparse : parsePayload st env.now record (s.context.enter record) with
  | ok event =>
    rw [hparse] at h
    cases h
  | error exn =>
    rw [hparse, Verdict.of_error, Verdict.ofExn] at h
    have hcaught : handled exn = none := by
      cases hcaught : handled exn with
      | none => rfl
      | some rejection => simp [hcaught] at h
    simp only [parseOne, hparse, hcaught]
    exact not_contained_error

/-- A record that is refused leaves its dead letter if one can be written. -/
theorem contained_refused (hmask : ∀ t, Text.encodable t = true → Text.encodable (base.dlq.maskText t) = true) {exn : Exn}
    {reason : RejectReason} {detail : Text}
    (hparse : parsePayload (u.stages base) env.now record (s.context.enter record) = .error exn)
    (hcaught : handled exn = some (reason, detail)) :
    Contained base.dlq s (parseOne (u.stages base) env record s) ↔ Writable u.py base.dlq env record s.dlq := by
  have hdetail : Text.encodable ((base.dlq.maskText detail).take 1024) = true := by
    apply Text.encodable_take
    apply hmask
    unfold handled at hcaught
    split at hcaught
    · cases hcaught
      exact Text.encodable_ofString _
    · split at hcaught
      · cases hcaught
        exact Text.encodable_ofString _
      · cases hcaught
  have htext : text (u.stages base) record = payloadText u.py record.payload := by
    unfold text payloadText
    cases record.payload <;> rfl
  simp only [parseOne, hparse, hcaught, htext]
  cases hraw : payloadText u.py record.payload with
  | error exn' =>
    refine ⟨fun h => absurd h not_contained_error, fun h => ?_⟩
    obtain ⟨raw, hok, -⟩ := h.raw
    rw [hraw] at hok
    cases hok
  | ok raw =>
    refine (contained_reject base.dlq env.now env.dlq _ _).trans ?_
    rw [DeadLetterQueue.rejected_eq_ok]
    constructor
    · rintro ⟨⟨-, hsource, hencodable⟩, happend⟩
      exact ⟨⟨raw, hraw, hencodable⟩, hsource, happend⟩
    · intro h
      obtain ⟨raw', hok, hencodable⟩ := h.raw
      rw [hraw] at hok
      cases hok
      exact ⟨⟨hdetail, h.source, hencodable⟩, h.append⟩

end

section
variable (py : Python) (patterns : Patterns) (kind : ParserKind) (transform : EventBody → Except Exn EventBody)
  (repr : PyFloat → String) (settings : ValidationSettings) (base : Stages Dict LogEvent K P Clock)

/-- A record ends in an event, or in one dead letter and one rejection, exactly when its verdict
is fine, or refused with a dead letter that can be written. -/
theorem bad_record_contained (hmask : ∀ t, Text.encodable t = true → Text.encodable (base.dlq.maskText t) = true)
    (env : RecordEnv F Clock) (record : RawRecord Dict) (s : ParseState P Clock) :
    Contained base.dlq s (parseOne ((setupFor py patterns kind transform repr settings).stages base) env record s) ↔
      recordFate py patterns kind env.now record.payload (s.context.enter record) = .fine ∨
        recordFate py patterns kind env.now record.payload (s.context.enter record) = .refused ∧
          Writable py base.dlq env record s.dlq := by
  have hfate := of_parsePayload py patterns kind transform repr settings base env.now record (s.context.enter record)
  rw [← hfate]
  cases hparse : parsePayload ((setupFor py patterns kind transform repr settings).stages base) env.now record
      (s.context.enter record) with
  | ok event =>
    refine iff_of_true ?_ (.inl rfl)
    simp only [parseOne, hparse]
    exact .event event _ rfl rfl
  | error exn =>
    rw [Verdict.of_error, Verdict.ofExn]
    cases hcaught : handled exn with
    | none =>
      refine iff_of_false (not_contained_of_escapes ?_) (by simp)
      simp [hparse, Verdict.ofExn, hcaught]
    | some rejection =>
      obtain ⟨reason, detail⟩ := rejection
      rw [contained_refused hmask hparse hcaught]
      simp [setupFor]

end

/-! ## An infinite status -/

/-- `{"status": Infinity}` -/
def infiniteStatus : RawRecord Dict where
  payload := .mapping [(Text.ofString "status", .float (.infinite false))]

/-- Patterns that find nothing. -/
def noPatterns : Patterns where
  text := ⟨fun _ => none, fun _ => none, fun _ => none, fun _ => []⟩
  syslog _ := none
  nginxError _ := none
  nginxTail _ := []
  access := ⟨fun _ => none, fun _ => none, fun _ => []⟩
  tokens _ := []

def jsonSetup : Setup := setupFor (plainPython spelled) noPatterns .json .ok (fun _ => "") {}

/-- Nothing fails around the record. -/
def calm : RecordEnv Unit Clock where
  now := noon 7 valid_seventh
  store := ()

theorem infinite_status_escapes :
    ¬Contained plainStages.dlq { context := {} }
      (parseOne (jsonSetup.stages plainStages) calm infiniteStatus { context := {} }) := by
  apply not_contained_of_escapes
  rw [jsonSetup, of_parsePayload]
  decide +kernel

theorem bad_record_contained_infinite :
    Contained plainStages.dlq { context := {} }
        (parseOne (jsonSetup.stages plainStages) calm infiniteStatus { context := {} }) ↔
      recordFate (plainPython spelled) noPatterns .json calm.now infiniteStatus.payload (ParseContext.enter {} infiniteStatus) =
          .fine ∨
        recordFate (plainPython spelled) noPatterns .json calm.now infiniteStatus.payload
            (ParseContext.enter {} infiniteStatus) = .refused ∧
          Writable (plainPython spelled) plainStages.dlq calm infiniteStatus {} :=
  bad_record_contained (plainPython spelled) noPatterns .json .ok (fun _ => "") {} plainStages (fun _ h => h) calm
    infiniteStatus { context := {} }

end LogAnalytics.LogPipeline
