import LogAnalytics.Pipeline.Effects
/-!
# Conservation

Every line read is rejected, a duplicate, or handed to the store; `Tallied` relates the
counters of a state to the outcomes of the records so far, every record keeps it, and when
the last batch is written nothing is left between the pipeline and the files.
-/

namespace LogAnalytics.LogPipeline

variable {R E K P F σ τ : Type}

/-- The context records leave to the next one. -/
def contextAfter (context : ParseContext) (records : List (RawRecord R × RecordEnv F τ)) : ParseContext :=
  records.foldl (fun c x => c.enter x.1) context

/-- Events accepted by the store: written, or waiting in its batch. -/
def stored (store : EventStore E F σ) (s : PipelineState E K P σ τ) : Nat :=
  store.recordsWritten s.store + s.batch.length

/-- The counters are those of the records seen. -/
structure Counted (s : PipelineState E K P σ τ) (seen : List Observed) : Prop where
  read : s.result.linesRead = seen.length
  parsed : s.result.recordsParsed = seen.countP (·.outcome.isParsed)
  rejected : s.result.recordsRejected = seen.countP (·.outcome.isRejected)
  valid : s.result.recordsValid = seen.countP (!·.outcome.isRejected)
  duplicates : s.deduplicator.stats.duplicates = seen.countP (·.outcome = .duplicate)

/-- And so is what the store holds, which is not so in a dry run. -/
structure Tallied (store : EventStore E F σ) (s : PipelineState E K P σ τ) (seen : List Observed) : Prop
    extends Counted s seen where
  stored : stored store s = seen.countP (·.outcome = .kept)

theorem check_eq (threshold : ℚ) (s : PipelineState E K P σ τ) :
    (check threshold s).2 = { s with checkedAt := (check threshold s).2.checkedAt } := by
  unfold check
  split <;> rfl

theorem Counted.check {s : PipelineState E K P σ τ} {seen : List Observed} (threshold : ℚ) (h : Counted s seen) :
    Counted (check threshold s).2 seen := by
  rw [check_eq]
  exact ⟨h.read, h.parsed, h.rejected, h.valid, h.duplicates⟩

theorem Tallied.check {store : EventStore E F σ} {s : PipelineState E K P σ τ} {seen : List Observed} (threshold : ℚ)
    (h : Tallied store s seen) : Tallied store (LogPipeline.check threshold s).2 seen := by
  refine ⟨h.toCounted.check threshold, ?_⟩
  rw [check_eq]
  exact h.stored

variable [DecidableEq K] {st : Stages R E K P τ} {store : EventStore E F σ} {dryRun : Bool} {env : RecordEnv F τ}
  {record : RawRecord R} {s t : PipelineState E K P σ τ} {o : Outcome} {seen : List Observed}

/-- A record moves each counter by what its outcome says. -/
theorem Counted.passed (h : Counted s seen) (hp : Passed st store dryRun env record (countLine s) o t)
    (checkpoint : Option Checkpoint) : Counted t (seen ++ [⟨o, checkpoint⟩]) := by
  obtain ⟨hr, hpar, hrej, hval, hdup⟩ := h
  cases hp with
  | unparsed | untransformed | invalid =>
    constructor <;>
      simpa [countLine, PipelineResult.recordRejection, Outcome.isParsed, Outcome.isRejected, List.countP_append]
  | duplicate event event' _ _ _ _ _ _ hseen =>
    have hd := (Deduplicator.isDuplicate_stats st.key s.deduplicator event').2.1
    rw [show (s.deduplicator.isDuplicate st.key event').1 = true from hseen, if_pos rfl, hdup] at hd
    constructor <;> simpa [countLine, Outcome.isParsed, Outcome.isRejected, List.countP_append]
  | kept event event' _ _ _ _ _ _ _ hseen _ =>
    have hd := (Deduplicator.isDuplicate_stats st.key s.deduplicator event').2.1
    rw [show (s.deduplicator.isDuplicate st.key event').1 = false from hseen, if_neg (by decide), hdup] at hd
    constructor <;> simpa [countLine, Outcome.isParsed, Outcome.isRejected, List.countP_append]

theorem Tallied.passed (h : Tallied store s seen) (hp : Passed st store false env record (countLine s) o t)
    (checkpoint : Option Checkpoint) : Tallied store t (seen ++ [⟨o, checkpoint⟩]) := by
  have hst := h.stored
  refine ⟨h.toCounted.passed hp checkpoint, ?_⟩
  cases hp with
  | unparsed | untransformed | invalid | duplicate => simpa [countLine, List.countP_append]
  | kept _ _ _ x batch _ _ _ _ _ hpush =>
    -- the event is in the files or in the batch, as the law of the store says
    have hs : store.recordsWritten x + batch.length = seen.countP (·.outcome = .kept) + 1 := by
      rw [← hst]
      exact EventStore.push_counts (hpush rfl)
    simpa [LogPipeline.stored, List.countP_append]

/-- The outcomes of a run add up, whatever they are. -/
theorem countP_outcomes (seen : List Observed) :
    seen.length = seen.countP (!·.outcome.isRejected) + seen.countP (·.outcome.isRejected) ∧
    seen.countP (!·.outcome.isRejected) = seen.countP (·.outcome = .kept) + seen.countP (·.outcome = .duplicate) ∧
    seen.countP (·.outcome.isParsed) = seen.countP (!·.outcome.isRejected) + seen.countP (·.outcome.isLate) := by
  induction seen with
  | nil => simp
  | cons x xs ih =>
    obtain ⟨o, c⟩ := x
    obtain ⟨h1, h2, h3⟩ := ih
    cases o <;> simp [Outcome.isRejected, Outcome.isLate, Outcome.isParsed] at * <;> omega

/-- A run whose source ended leaves the counters of all its records. -/
theorem readLoop_tallied {opts : PipelineOptions} {threshold : ℚ} {raises : Option Exn} (hdry : opts.dryRun = false)
    {records : List (RawRecord R × RecordEnv F τ)} {trace : List Observed} (h : Tallied store s [])
    (hr : readLoop st store opts threshold raises s records = (.ok .exhausted, t, trace)) : Tallied store t trace := by
  obtain ⟨k, u, hu, ht⟩ := readLoop_inv st store opts threshold raises (fun s _ seen => Tallied store s seen) (by
      intro s done seen record env o t hs hp
      rw [hdry] at hp
      exact (hs.passed hp _).check threshold) records s [] [] h
  rw [hr] at hu ht
  obtain rfl : t = u := ht rfl
  exact hu

omit [DecidableEq K] in
theorem tallied_start (context : ParseContext) (dlq : DeadLetterQueue P τ) (seen : SeenKeys K) {x : σ}
    (hx : store.recordsWritten x = 0) : Tallied store (start (E := E) context dlq seen x) [] :=
  ⟨⟨rfl, rfl, rfl, rfl, rfl⟩, hx⟩

omit [DecidableEq K] in
/-- The last batch written, the counters the store and the deduplicator keep are those of the run. -/
theorem complete_ok {opts : PipelineOptions} {f : F} (hdry : opts.dryRun = false)
    (h : complete store opts f s = (.ok (), t)) :
    store.recordsWritten t.store = stored store s ∧ t.result.recordsWritten = store.recordsWritten t.store ∧
      t.result.recordsDuplicate = s.deduplicator.stats.duplicates ∧ t.result.linesRead = s.result.linesRead ∧
      t.result.recordsParsed = s.result.recordsParsed ∧ t.result.recordsValid = s.result.recordsValid ∧
      t.result.recordsRejected = s.result.recordsRejected := by
  unfold complete at h
  rw [hdry, if_neg (by decide)] at h
  split at h
  · cases h
  · next x hd =>
    cases h
    refine ⟨?_, rfl, rfl, rfl, rfl, rfl, rfl⟩
    exact (store.finish_counts x).trans (EventStore.drain_counts hd)

omit [DecidableEq K] in
/-- Publishing moves no counter. -/
theorem finalise_counters (opts : PipelineOptions) (f : F)
    (h : s.result.recordsWritten = store.recordsWritten s.store) :
    let u := (finalise store opts f s).2.result
    u.recordsWritten = s.result.recordsWritten ∧ u.recordsDuplicate = s.result.recordsDuplicate ∧
      u.linesRead = s.result.linesRead ∧ u.recordsParsed = s.result.recordsParsed ∧
      u.recordsValid = s.result.recordsValid ∧ u.recordsRejected = s.result.recordsRejected := by
  have hf := store.flush_counts f s.store
  have hclose : ∀ u : PipelineState E K P σ τ,
      (close u).result = { u.result with rejectionReasons := (close u).result.rejectionReasons } := by
    intro u
    unfold close
    split <;> rfl
  unfold finalise
  split
  · rw [hclose]
    exact ⟨rfl, rfl, rfl, rfl, rfl, rfl⟩
  · split
    · next hflush =>
      rw [hflush] at hf
      dsimp only
      rw [hclose]
      exact ⟨hf.trans h.symm, rfl, rfl, rfl, rfl, rfl⟩
    · split
      · dsimp only
        rw [hclose]
        exact ⟨rfl, rfl, rfl, rfl, rfl, rfl⟩
      · dsimp only
        rw [hclose]
        exact ⟨rfl, rfl, rfl, rfl, rfl, rfl⟩

/-- A run to the end of its source: the read loop tallied its records, then the last batch was
written. -/
theorem execute_exhausted {opts : PipelineOptions} {threshold : ℚ} {input : Run R F τ} {trace : List Observed}
    (hdry : opts.dryRun = false) (h0 : Tallied store s [])
    (h : execute st store opts threshold input s = (.ok .exhausted, t, trace)) :
    ∃ q, Tallied store q trace ∧ complete store opts input.lastBatch q = (.ok (), t) := by
  unfold execute at h
  split at h
  · cases h
  · split at h
    · cases h
    · next ending q seen hr =>
      simp only [Prod.mk.injEq, Lib.map_ok] at h
      obtain ⟨⟨_, hc, rfl⟩, rfl, rfl⟩ := h
      exact ⟨q, readLoop_tallied hdry h0 hr, Prod.ext hc rfl⟩

/-- A run to the end of its source, not a dry run and on a fresh store: the counters it returns
add up. -/
theorem run_conserves (st : Stages R E K P τ) (store : EventStore E F σ) (opts : PipelineOptions) (threshold : ℚ)
    (input : Run R F τ) (context : ParseContext) (dlq : DeadLetterQueue P τ) (seen : SeenKeys K) (x : σ)
    (hdry : opts.dryRun = false) (hfresh : store.recordsWritten x = 0)
    (hend : (execute st store opts threshold input (start context dlq seen x)).1 = .ok .exhausted) :
    let trace := (execute st store opts threshold input (start context dlq seen x)).2.2
    let result := (run st store opts threshold input (start context dlq seen x)).2.result
    result.linesRead = result.recordsWritten + result.recordsDuplicate + result.recordsRejected ∧
      result.recordsValid = result.recordsWritten + result.recordsDuplicate ∧
      result.recordsParsed = result.recordsValid + trace.countP (·.outcome.isLate) := by
  intro trace result
  obtain ⟨q, (hq : Tallied store q trace), hc⟩ := execute_exhausted hdry (tallied_start context dlq seen hfresh) (Prod.ext hend rfl)
  obtain ⟨hstored, hwritten, hdup, hread, hparsed, hvalid, hrej⟩ := complete_ok hdry hc
  -- `result` is what publishing leaves of the state `complete` left
  have hresult : result = (finalise store opts input.flush
      (execute st store opts threshold input (start context dlq seen x)).2.1).2.result := by
    simp only [result, run]
    rcases he : execute st store opts threshold input (start context dlq seen x) with ⟨_ | _, t, tr⟩
    · rw [he] at hend; cases hend
    · rfl
  obtain ⟨h1, h2, h3, h4, h5, h6⟩ := finalise_counters opts input.flush hwritten
  obtain ⟨c1, c2, c3⟩ := countP_outcomes trace
  rw [hresult, h1, h2, h3, h4, h5, h6, hwritten, hstored, hdup, hread, hparsed, hvalid, hrej, hq.read, hq.parsed,
    hq.rejected, hq.valid, hq.duplicates, hq.stored]
  omega

/-- Lines that are their own events: the empty one cannot be parsed, `t` not be transformed, and
`v` is invalid. -/
def lineStages : Stages Unit Text Text Unit Unit where
  parser := { parse := fun _ line _ => if line = [] then .error ⟨.parseError, "empty line"⟩ else .ok line }
  jsonLineParser _ _ _ := .error ⟨.typeError, "a line is not a mapping"⟩
  dumps _ := .ok []
  transform e := if e = Text.ofString "t" then .error ⟨.valueError, "no transformation"⟩ else .ok e
  validate _ e := .ok { valid := e ≠ Text.ofString "v" }
  key := some
  keepDuplicates := true
  dlq := { maskText := id, maskMapping := id, contentHash := fun _ => "", refusal := "", maxRecords := 3, enabled := true }
  rawOf := id
  sourceOf _ := Text.ofString "lines"
  partialOf _ := ()

/-- Lines and nothing that goes wrong around them. -/
def lineRun (lines : List String) : Run Unit TextFaults Unit where
  records := lines.map fun line => ({ payload := .text (Text.ofString line) }, { now := (), store := {} })
  lastBatch := {}
  flush := {}

/-- The JSONL store, all events in one partition. -/
def lineStore : EventStore Text TextFaults (TextWrite Unit Text) :=
  TextStore.events { unicode := asciiUnicode, format := .jsonl, partition := fun _ => () } "run" (·.2)

/-- One line of each kind. -/
theorem run_conserves_mixed :
    let s : PipelineState Text Text Unit (TextWrite Unit Text) Unit :=
      start {} {} (SeenKeys.empty 10 SeenKeys.one_le_ten) { store := { files := ∅ } }
    let input := lineRun ["a", "", "t", "v", "a", "b"]
    let trace := (execute lineStages lineStore {} (1 / 2) input s).2.2
    let result := (run lineStages lineStore {} (1 / 2) input s).2.result
    result.linesRead = result.recordsWritten + result.recordsDuplicate + result.recordsRejected ∧
      result.recordsValid = result.recordsWritten + result.recordsDuplicate ∧
      result.recordsParsed = result.recordsValid + trace.countP (·.outcome.isLate) :=
  run_conserves lineStages lineStore {} (1 / 2) (lineRun ["a", "", "t", "v", "a", "b"]) {} {} _ _ rfl rfl rfl

end LogAnalytics.LogPipeline
