import LogAnalytics.Deduplication
import LogAnalytics.Models.Records
import LogAnalytics.Storage.EventStore
import LogAnalytics.Validation.Dlq
import LogAnalytics.Validation.Issues
/-!
# The pipeline

`LogPipeline` over one source. The stages are chained generators, so a record is parsed,
transformed, validated, deduplicated and handed to the store before the next one is read:
`processRecord` is that passage. The parser, the transformation chain and the validator are
parameters (`Stages`), and so is the store. What a method changed before it raised stays
changed.
-/

namespace LogAnalytics

/-- A parser; `parseRecord` is there when it is a `StructuredParser`. -/
structure LogParser (R E τ : Type) where
  parse : τ → Text → ParseContext → Except Exn E
  parseRecord : Option (τ → R → ParseContext → Except Exn E) := none

/-- What a run is put together from; `τ` is the clock the stages may read. -/
structure Stages (R E K P τ : Type) where
  parser : LogParser R E τ
  /-- `JsonLineParser().parse_record` -/
  jsonLineParser : τ → R → ParseContext → Except Exn E
  /-- `json.dumps` of a structured payload. -/
  dumps : R → Except Exn Text
  transform : E → Except Exn E
  validate : τ → E → Except Exn ValidationResult
  key : E → Option K
  keepDuplicates : Bool
  dlq : DlqConfig P
  /-- `event.raw_message or event.message` -/
  rawOf : E → Text
  sourceOf : E → Text
  partialOf : E → P

structure PipelineOptions where
  dryRun : Bool := false
  limit : Option Nat := none

/-- What happens around one record. -/
structure RecordEnv (F τ : Type) where
  /-- A stop was requested when the record arrived. -/
  stopping : Bool := false
  now : τ
  dlq : DlqFaults := {}
  store : F

/-- What `_parse_one` works on. -/
structure ParseState (P τ : Type) where
  context : ParseContext
  dlq : DeadLetterQueue P τ := {}
  result : PipelineResult := {}

structure PipelineState (E K P σ τ : Type) extends ParseState P τ where
  deduplicator : Deduplicator K
  store : σ
  /-- The events the store has pulled and not written yet. -/
  batch : List E := []
  checkedAt : Nat := 0

/-- What became of a record. -/
inductive Outcome where
  | unparsed | untransformed | invalid | duplicate | kept
  deriving DecidableEq, Repr

namespace Outcome

def isParsed : Outcome → Bool
  | unparsed => false
  | untransformed | invalid | duplicate | kept => true

def isRejected : Outcome → Bool
  | unparsed | untransformed | invalid => true
  | duplicate | kept => false

/-- Rejected by transformation or validation. -/
def isLate : Outcome → Bool
  | untransformed | invalid => true
  | unparsed | duplicate | kept => false

end Outcome

/-- What an error-rate check saw, and whether it ends the run. -/
structure Checkpoint where
  rate : ℚ
  aborts : Bool
  deriving DecidableEq

/-- One record of a run: its outcome and the check made after it, if one was due. -/
structure Observed where
  outcome : Outcome
  checkpoint : Option Checkpoint := none
  deriving DecidableEq

/-- How the read loop ended when it raised nothing. -/
inductive Ending where
  | exhausted | stopped | limited
  deriving DecidableEq, Repr

variable {R E K P F σ τ : Type}

namespace LogPipeline

/-- Dead-letter a record and count its rejection. -/
def reject (c : DlqConfig P) (now : τ) (faults : DlqFaults) (s : ParseState P τ) (r : Rejection P) :
    Except Exn Unit × ParseState P τ :=
  match s.dlq.record c now faults r with
  | (.error exn, dlq) => (.error exn, { s with dlq := dlq })
  | (.ok _, dlq) => (.ok (), { s with dlq := dlq, result := s.result.recordRejection r.reason })

/-- `record.text` -/
def text (st : Stages R E K P τ) (record : RawRecord R) : Except Exn Text :=
  match record.payload with
  | .text line => .ok line
  | .mapping m => st.dumps m

/-- The `try` body of `_parse_one`. -/
def parsePayload (st : Stages R E K P τ) (now : τ) (record : RawRecord R) (context : ParseContext) : Except Exn E :=
  match record.payload with
  | .text line => st.parser.parse now line context
  | .mapping m =>
    match st.parser.parseRecord with
    | some parseRecord => parseRecord now m context
    | none => st.jsonLineParser now m context

/-- The `except` clauses of `_parse_one`: reason and detail of the rejection. -/
def handled (exn : Exn) : Option (RejectReason × Text) :=
  if exn.cls = .parseError then some (.unparseable, Text.ofString exn.msg)
  else if exn.isValueError ∨ exn.cls = .typeError then
    some (.schemaViolation, Text.ofString (exn.typeName ++ ": " ++ exn.msg))
  else none

/-- `_parse_one` -/
def parseOne (st : Stages R E K P τ) (env : RecordEnv F τ) (record : RawRecord R) (s : ParseState P τ) :
    Except Exn (Option E) × ParseState P τ :=
  let s := { s with context := s.context.enter record }
  match parsePayload st env.now record s.context with
  | .ok event => (.ok (some event), s)
  | .error exn =>
    match handled exn with
    | none => (.error exn, s)
    | some (reason, detail) =>
      match text st record with
      | .error exn => (.error exn, s)
      | .ok raw =>
        let (done, s) := reject st.dlq env.now env.dlq s
          { raw := raw, reason := reason, stage := "parse", detail := detail, source := record.source,
            lineNumber := record.lineNumber }
        (done.map fun _ => none, s)

/-- `dlq.record_event` -/
def eventRejection (st : Stages R E K P τ) (event : E) (reason : RejectReason) (stage : String) (detail : Text) :
    Rejection P :=
  { raw := st.rawOf event, reason := reason, stage := stage, detail := detail, source := st.sourceOf event,
    partialRow := some (st.partialOf event) }

/-- Reject a parsed event; the record's outcome is `outcome`. -/
def rejectEvent (st : Stages R E K P τ) (env : RecordEnv F τ) (s : PipelineState E K P σ τ) (r : Rejection P)
    (outcome : Outcome) : Except Exn Outcome × PipelineState E K P σ τ :=
  let (done, p) := reject st.dlq env.now env.dlq s.toParseState r
  (done.map fun _ => outcome, { s with toParseState := p })

/-- Hand an event to the store; a dry run throws it away. -/
def keep (store : EventStore E F σ) (dryRun : Bool) (env : RecordEnv F τ) (s : PipelineState E K P σ τ) (event : E) :
    Except Exn Outcome × PipelineState E K P σ τ :=
  if dryRun then (.ok .kept, s)
  else
    let (done, t, batch) := store.push env.store s.store s.batch event
    (done.map fun _ => .kept, { s with store := t, batch := batch })

/-- `_stage_dedup` for one event. -/
def stageDedup [DecidableEq K] (st : Stages R E K P τ) (store : EventStore E F σ) (dryRun : Bool) (env : RecordEnv F τ)
    (s : PipelineState E K P σ τ) (event : E) : Except Exn Outcome × PipelineState E K P σ τ :=
  let (duplicate, d) := s.deduplicator.isDuplicate st.key event
  let s := { s with deduplicator := d }
  if duplicate then
    if st.keepDuplicates then
      let (done, dlq) := s.dlq.record st.dlq env.now env.dlq (eventRejection st event .duplicate "deduplicate" [])
      (done.map fun _ => .duplicate, { s with dlq := dlq })
    else (.ok .duplicate, s)
  else keep store dryRun env s event

/-- `_stage_validate` for one event. -/
def stageValidate [DecidableEq K] (st : Stages R E K P τ) (store : EventStore E F σ) (dryRun : Bool)
    (env : RecordEnv F τ) (s : PipelineState E K P σ τ) (event : E) : Except Exn Outcome × PipelineState E K P σ τ :=
  match st.validate env.now event with
  | .error exn => (.error exn, s)
  | .ok outcome =>
    if outcome.valid then
      stageDedup st store dryRun env { s with result := { s.result with recordsValid := s.result.recordsValid + 1 } } event
    else
      rejectEvent st env s
        (eventRejection st event outcome.reason "validate" (Text.ofString outcome.detail)) .invalid

/-- `_stage_transform` for one event, and the stages behind it. -/
def stageTransform [DecidableEq K] (st : Stages R E K P τ) (store : EventStore E F σ) (dryRun : Bool)
    (env : RecordEnv F τ) (s : PipelineState E K P σ τ) (event : E) : Except Exn Outcome × PipelineState E K P σ τ :=
  match st.transform event with
  | .ok event => stageValidate st store dryRun env s event
  | .error exn =>
    rejectEvent st env s (eventRejection st event .transformError "transform" (Text.ofString exn.msg)) .untransformed

/-- The body of the loop of `_stage_parse`, up to the error-rate check. -/
def processRecord [DecidableEq K] (st : Stages R E K P τ) (store : EventStore E F σ) (dryRun : Bool)
    (env : RecordEnv F τ) (record : RawRecord R) (s : PipelineState E K P σ τ) :
    Except Exn Outcome × PipelineState E K P σ τ :=
  match parseOne st env record s.toParseState with
  | (.error exn, p) => (.error exn, { s with toParseState := p })
  | (.ok none, p) => (.ok .unparsed, { s with toParseState := p })
  | (.ok (some event), p) =>
    let p := { p with result := { p.result with recordsParsed := p.result.recordsParsed + 1 } }
    stageTransform st store dryRun env { s with toParseState := p } event

/-- The error-rate check of `_stage_parse`, made every 10 000 lines. -/
def check (threshold : ℚ) (s : PipelineState E K P σ τ) : Option Checkpoint × PipelineState E K P σ τ :=
  if 10000 ≤ s.result.linesRead - s.checkedAt then
    let s := { s with checkedAt := s.result.linesRead }
    let rate := s.result.rejectionRate
    (some ⟨rate, decide (1000 ≤ s.result.linesRead ∧ threshold < rate)⟩, s)
  else (none, s)

/-- What the check raises. -/
def thresholdExceeded : Exn :=
  ⟨.pipelineError, "rejection rate exceeded the configured threshold; the source format is probably wrong"⟩

def countLine (s : PipelineState E K P σ τ) : PipelineState E K P σ τ :=
  { s with result := { s.result with linesRead := s.result.linesRead + 1 } }

/-- The loop of `_stage_parse` with the stages behind it. `sourceRaises` is what reading the
source raises after the last record. -/
def readLoop [DecidableEq K] (st : Stages R E K P τ) (store : EventStore E F σ) (opts : PipelineOptions) (threshold : ℚ)
    (sourceRaises : Option Exn) :
    PipelineState E K P σ τ → List (RawRecord R × RecordEnv F τ) →
      Except Exn Ending × PipelineState E K P σ τ × List Observed
  | s, [] =>
    match sourceRaises with
    | some exn => (.error exn, s, [])
    | none => (.ok .exhausted, s, [])
  | s, (record, env) :: rest =>
    if env.stopping then (.ok .stopped, s, [])
    else
      let s := countLine s
      if opts.limit.any (· ≤ s.result.recordsParsed) then (.ok .limited, s, [])
      else
        match processRecord st store opts.dryRun env record s with
        | (.error exn, s) => (.error exn, s, [])
        | (.ok outcome, s) =>
          let (checkpoint, s) := check threshold s
          if checkpoint.any (·.aborts) then (.error thresholdExceeded, s, [⟨outcome, checkpoint⟩])
          else
            let (r, s, seen) := readLoop st store opts threshold sourceRaises s rest
            (r, s, ⟨outcome, checkpoint⟩ :: seen)

/-- A source and what happens while it is processed. -/
structure Run (R F τ : Type) where
  records : List (RawRecord R × RecordEnv F τ)
  /-- What `_prepare_parser` raises. -/
  prepareRaises : Option Exn := none
  sourceRaises : Option Exn := none
  /-- What the file system does while the last batch is written. -/
  lastBatch : F
  flush : F

/-- The end of `_execute`: the last batch, and the counters the store and the deduplicator keep. -/
def complete (store : EventStore E F σ) (opts : PipelineOptions) (f : F) (s : PipelineState E K P σ τ) :
    Except Exn Unit × PipelineState E K P σ τ :=
  let deduplicated (s : PipelineState E K P σ τ) : PipelineState E K P σ τ :=
    let stats := s.deduplicator.stats
    { s with result := { s.result with
        recordsDuplicate := stats.duplicates
        stages := s.result.stages ++
          [{ name := "deduplication", processed := stats.seen, passed := stats.unique, rejected := stats.duplicates }] } }
  if opts.dryRun then (.ok (), deduplicated s)
  else
    match store.drain f s.store s.batch with
    | (.error exn, t) => (.error exn, { s with store := t, batch := [] })
    | (.ok (), t) =>
      let t := store.finish t
      (.ok (), deduplicated { s with
        store := t
        batch := []
        result := { s.result with outputs := store.touched t, recordsWritten := store.recordsWritten t } })

/-- `_execute`, with how the read loop ended and the records it saw. -/
def execute [DecidableEq K] (st : Stages R E K P τ) (store : EventStore E F σ) (opts : PipelineOptions) (threshold : ℚ)
    (run : Run R F τ) (s : PipelineState E K P σ τ) :
    Except Exn Ending × PipelineState E K P σ τ × List Observed :=
  match run.prepareRaises with
  | some exn => (.error exn, s, [])
  | none =>
    match readLoop st store opts threshold run.sourceRaises s run.records with
    | (.error exn, s, seen) => (.error exn, s, seen)
    | (.ok ending, s, seen) =>
      let (done, s) := complete store opts run.lastBatch s
      (done.map fun _ => ending, s, seen)

/-- The `finally` part of `_finalise`. -/
def close (s : PipelineState E K P σ τ) : PipelineState E K P σ τ :=
  if s.dlq.total ≠ 0 ∧ s.result.rejectionReasons = [] then
    { s with result := { s.result with rejectionReasons := s.dlq.counts } }
  else s

/-- `_finalise`: publish what was written; only a `StorageError` is turned into a result. -/
def finalise (store : EventStore E F σ) (opts : PipelineOptions) (f : F) (s : PipelineState E K P σ τ) :
    Except Exn Unit × PipelineState E K P σ τ :=
  if opts.dryRun then (.ok (), close s)
  else
    match store.flush f s.store with
    | (.ok (), t) =>
      (.ok (), close { s with store := t, result := { s.result with
        recordsWritten := store.recordsWritten t, outputs := store.filesWritten t } })
    | (.error exn, t) =>
      if exn.cls = .storageError then (.ok (), close { s with store := t, result := s.result.fail exn.msg })
      else (.error exn, close { s with store := t })

/-- The `except` clauses of `run`. -/
def recordFailure (s : PipelineState E K P σ τ) (exn : Exn) : PipelineState E K P σ τ :=
  { s with result := s.result.fail (if exn.isPipelineError then exn.msg else exn.typeName ++ ": " ++ exn.msg) }

/-- `run` on a source that could be opened. -/
def run [DecidableEq K] (st : Stages R E K P τ) (store : EventStore E F σ) (opts : PipelineOptions) (threshold : ℚ)
    (run : Run R F τ) (s : PipelineState E K P σ τ) : Except Exn PipelineResult × PipelineState E K P σ τ :=
  let s := match execute st store opts threshold run s with
    | (.error exn, s, _) => recordFailure s exn
    | (.ok _, s, _) => s
  let (done, s) := finalise store opts run.flush s
  (done.map fun _ => s.result, s)

/-- What `run` starts from: counters at zero and a fresh deduplicator. -/
def start (context : ParseContext) (dlq : DeadLetterQueue P τ) (seen : SeenKeys K) (store : σ) :
    PipelineState E K P σ τ :=
  { context := context, dlq := dlq, deduplicator := { seen := seen }, store := store }

end LogPipeline

end LogAnalytics
