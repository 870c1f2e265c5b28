import LogAnalytics.Pipeline.Effects
/-!
# The events a run hands over

A store that also notes every batch it is given, written or not, makes the same runs. Its notes
and the events that still wait are what a run handed to its store. Between them, a record and
the whole read loop only ever push to the store, which is the rule by which facts about the
store go through a run.
-/

namespace LogAnalytics

variable {R E K P F σ τ : Type}

/-- The store, noting the batches it is given. -/
def EventStore.noting (es : EventStore E F σ) : EventStore E F (σ × List E) where
  batchSize := es.batchSize
  writeBatch f s batch :=
    let (r, t) := es.writeBatch f s.1 batch
    (r, t, s.2 ++ batch)
  finish s := (es.finish s.1, s.2)
  flush f s :=
    let (r, t) := es.flush f s.1
    (r, t, s.2)
  recordsWritten s := es.recordsWritten s.1
  touched s := es.touched s.1
  filesWritten s := es.filesWritten s.1
  writeBatch_counts f s batch h := es.writeBatch_counts f s.1 batch h
  finish_counts s := es.finish_counts s.1
  flush_counts f s := es.flush_counts f s.1

namespace LogPipeline

/-! ## Taking notes changes nothing -/

/-- The state without the notes. -/
def forget (s : PipelineState E K P (σ × List E) τ) : PipelineState E K P σ τ :=
  { toParseState := s.toParseState, deduplicator := s.deduplicator, store := s.store.1, batch := s.batch,
    checkedAt := s.checkedAt }

section
variable (es : EventStore E F σ)

theorem push_noting (f : F) (s : σ × List E) (batch : List E) (event : E) :
    es.push f s.1 batch event =
      ((es.noting.push f s batch event).1, (es.noting.push f s batch event).2.1.1, (es.noting.push f s batch event).2.2) := by
  unfold EventStore.push
  dsimp only
  by_cases hfull : es.batchSize ≤ (batch ++ [event]).length
  · have hfull' : es.noting.batchSize ≤ (batch ++ [event]).length := hfull
    rw [if_pos hfull, if_pos hfull']
    rfl
  · have hfull' : ¬ es.noting.batchSize ≤ (batch ++ [event]).length := hfull
    rw [if_neg hfull, if_neg hfull']

theorem keep_forget (dryRun : Bool) (env : RecordEnv F τ) (s : PipelineState E K P (σ × List E) τ) (event : E) :
    keep es dryRun env (forget s) event = Prod.map id forget (keep es.noting dryRun env s event) := by
  unfold keep
  cases dryRun with
  | true => rfl
  | false =>
    have hpush : es.push env.store (forget s).store (forget s).batch event = _ := push_noting es env.store s.store s.batch event
    simp only [Bool.false_eq_true, if_false]
    rw [hpush]
    rfl

variable [DecidableEq K] (st : Stages R E K P τ)

theorem processRecord_forget (dryRun : Bool) (env : RecordEnv F τ) (record : RawRecord R)
    (s : PipelineState E K P (σ × List E) τ) :
    processRecord st es dryRun env record (forget s) = Prod.map id forget (processRecord st es.noting dryRun env record s) := by
  unfold processRecord
  have hparse : parseOne st env record (forget s).toParseState = parseOne st env record s.toParseState := rfl
  rw [hparse]
  rcases parseOne st env record s.toParseState with ⟨_ | _ | event, p⟩
  · rfl
  · rfl
  · dsimp only
    unfold stageTransform
    cases st.transform event with
    | error exn => rfl
    | ok event' =>
      dsimp only
      unfold stageValidate
      cases st.validate env.now event' with
      | error exn => rfl
      | ok outcome =>
        dsimp only
        by_cases hvalid : outcome.valid = true
        · rw [if_pos hvalid, if_pos hvalid]
          unfold stageDedup
          dsimp only [forget]
          by_cases hseen : (s.deduplicator.isDuplicate st.key event').1 = true
          · rw [if_pos hseen, if_pos hseen]
            cases st.keepDuplicates <;> rfl
          · rw [if_neg hseen, if_neg hseen, ← keep_forget]
            rfl
        · simp only [if_neg hvalid]
          rfl

theorem readLoop_forget (opts : PipelineOptions) (threshold : ℚ) (raises : Option Exn)
    (records : List (RawRecord R × RecordEnv F τ)) : ∀ s : PipelineState E K P (σ × List E) τ,
      readLoop st es opts threshold raises (forget s) records =
        Prod.map id (Prod.map forget id) (readLoop st es.noting opts threshold raises s records) := by
  induction records with
  | nil =>
    intro s
    cases raises <;> rfl
  | cons x rest ih =>
    intro s
    obtain ⟨record, env⟩ := x
    rw [readLoop, readLoop]
    cases env.stopping with
    | true => rfl
    | false =>
      have hcount : countLine (forget s) = forget (countLine s) := rfl
      simp only [Bool.false_eq_true, if_false, hcount]
      by_cases hlimit : opts.limit.any (· ≤ (countLine s).result.recordsParsed) = true
      · have hlimit' : opts.limit.any (· ≤ (forget (countLine s)).result.recordsParsed) = true := hlimit
        rw [if_pos hlimit, if_pos hlimit']
        rfl
      · have hlimit' : ¬ opts.limit.any (· ≤ (forget (countLine s)).result.recordsParsed) = true := hlimit
        rw [if_neg hlimit, if_neg hlimit', processRecord_forget es st]
        rcases processRecord st es.noting opts.dryRun env record (countLine s) with ⟨_ | outcome, t⟩
        · rfl
        · have hcheck : check threshold (forget t) = Prod.map id forget (check threshold t) := by
            unfold check
            by_cases hdue : 10000 ≤ t.result.linesRead - t.checkedAt
            · have hdue' : 10000 ≤ (forget t).result.linesRead - (forget t).checkedAt := hdue
              rw [if_pos hdue, if_pos hdue']
              rfl
            · have hdue' : ¬ 10000 ≤ (forget t).result.linesRead - (forget t).checkedAt := hdue
              rw [if_neg hdue, if_neg hdue']
              rfl
          dsimp only [Prod.map, id]
          rw [hcheck]
          dsimp only [Prod.map, id]
          split
          · rfl
          · rw [ih]
            rfl

omit [DecidableEq K] in
theorem complete_forget (opts : PipelineOptions) (f : F) (s : PipelineState E K P (σ × List E) τ) :
    complete es opts f (forget s) = Prod.map id forget (complete es.noting opts f s) := by
  unfold complete
  by_cases hdry : opts.dryRun = true
  · rw [if_pos hdry, if_pos hdry]
    rfl
  · rw [if_neg hdry, if_neg hdry]
    have hdrain : es.drain f (forget s).store (forget s).batch =
        ((es.noting.drain f s.store s.batch).1, (es.noting.drain f s.store s.batch).2.1) := by
      have hbatch : (forget s).batch = s.batch := rfl
      unfold EventStore.drain
      rw [hbatch]
      split <;> rfl
    rw [hdrain]
    rcases es.noting.drain f s.store s.batch with ⟨_ | _, _⟩ <;> rfl

/-- A run on the store is the run on the noting store. -/
theorem execute_forget (opts : PipelineOptions) (threshold : ℚ) (input : Run R F τ)
    (s : PipelineState E K P (σ × List E) τ) :
    execute st es opts threshold input (forget s) =
      Prod.map id (Prod.map forget id) (execute st es.noting opts threshold input s) := by
  unfold execute
  cases input.prepareRaises with
  | some exn => rfl
  | none =>
    dsimp only
    rw [readLoop_forget]
    rcases readLoop st es.noting opts threshold input.sourceRaises s input.records with ⟨_ | ending, t, seen⟩
    · rfl
    · dsimp only [Prod.map, id]
      rw [complete_forget]
      rfl

end

/-! ## Only pushes reach the store -/

/-- What the result says of the store. -/
def reported (s : ParseState P τ) : Nat × List String := (s.result.recordsWritten, s.result.outputs)

/-- A step from `s` that may push one event: it reports nothing, and when it raises nothing its
push raised nothing. -/
def Hands {α : Type} (es : EventStore E F σ) (dryRun : Bool) (f : F) (s : PipelineState E K P σ τ)
    (p : Except Exn α × PipelineState E K P σ τ) : Prop :=
  reported p.2.toParseState = reported s.toParseState ∧
    (p.2.store = s.store ∧ p.2.batch = s.batch ∨
      dryRun = false ∧ ∃ event, (p.2.store, p.2.batch) = (es.push f s.store s.batch event).2 ∧
        ((∃ o, p.1 = .ok o) → (es.push f s.store s.batch event).1 = .ok ()))

theorem reject_reported (c : DlqConfig P) (now : τ) (faults : DlqFaults) (s : ParseState P τ) (r : Rejection P) :
    reported (reject c now faults s r).2 = reported s := by
  unfold reject
  split <;> rfl

theorem parseOne_reported (st : Stages R E K P τ) (env : RecordEnv F τ) (record : RawRecord R) (s : ParseState P τ) :
    reported (parseOne st env record s).2 = reported s := by
  unfold parseOne
  dsimp only
  split
  · rfl
  · split
    · rfl
    · split
      · rfl
      · exact reject_reported _ _ _ _ _

theorem check_keeps (threshold : ℚ) (s : PipelineState E K P σ τ) :
    reported (check threshold s).2.toParseState = reported s.toParseState ∧
      (check threshold s).2.store = s.store ∧ (check threshold s).2.batch = s.batch := by
  unfold check
  split <;> exact ⟨rfl, rfl, rfl⟩

theorem keep_hands (es : EventStore E F σ) (dryRun : Bool) (env : RecordEnv F τ) (s : PipelineState E K P σ τ) (event : E) :
    Hands es dryRun env.store s (keep es dryRun env s event) := by
  unfold keep
  cases dryRun with
  | true => exact ⟨rfl, .inl ⟨rfl, rfl⟩⟩
  | false =>
    refine ⟨rfl, .inr ⟨rfl, event, rfl, ?_⟩⟩
    rintro ⟨o, ho⟩
    obtain ⟨_, hpush, -⟩ := Lib.map_ok.1 ho
    exact hpush

section
variable [DecidableEq K]

theorem processRecord_hands (st : Stages R E K P τ) (es : EventStore E F σ) (dryRun : Bool) (env : RecordEnv F τ)
    (record : RawRecord R) (s : PipelineState E K P σ τ) :
    Hands es dryRun env.store s (processRecord st es dryRun env record s) := by
  have hparse := parseOne_reported st env record s.toParseState
  unfold processRecord
  rcases hp : parseOne st env record s.toParseState with ⟨_ | _ | event, p⟩ <;> rw [hp] at hparse
  · exact ⟨hparse, .inl ⟨rfl, rfl⟩⟩
  · exact ⟨hparse, .inl ⟨rfl, rfl⟩⟩
  · dsimp only
    unfold stageTransform
    split
    · unfold stageValidate
      split
      · exact ⟨hparse, .inl ⟨rfl, rfl⟩⟩
      · split
        · unfold stageDedup
          dsimp only
          split
          · split <;> exact ⟨hparse, .inl ⟨rfl, rfl⟩⟩
          · obtain ⟨hr, hstore⟩ := keep_hands es dryRun env _ _
            exact ⟨hr.trans hparse, hstore⟩
        · exact ⟨(reject_reported _ _ _ _ _).trans hparse, .inl ⟨rfl, rfl⟩⟩
    · exact ⟨(reject_reported _ _ _ _ _).trans hparse, .inl ⟨rfl, rfl⟩⟩

/-- What pushes keep, the read loop keeps: `I` when nothing raises, and what follows from it or
from a push that raises (`A`) however the loop ends. -/
theorem readLoop_pushes (st : Stages R E K P τ) (es : EventStore E F σ) (opts : PipelineOptions) (threshold : ℚ)
    (raises : Option Exn) {I A : σ → List E → Prop} (hweaken : ∀ w batch, I w batch → A w batch)
    (hpush : ∀ f w batch event, opts.dryRun = false → I w batch →
      A (es.push f w batch event).2.1 (es.push f w batch event).2.2 ∧
        ((es.push f w batch event).1 = .ok () → I (es.push f w batch event).2.1 (es.push f w batch event).2.2))
    (records : List (RawRecord R × RecordEnv F τ)) : ∀ s : PipelineState E K P σ τ, I s.store s.batch →
      let p := readLoop st es opts threshold raises s records
      reported p.2.1.toParseState = reported s.toParseState ∧ A p.2.1.store p.2.1.batch ∧
        ((∃ ending, p.1 = .ok ending) → I p.2.1.store p.2.1.batch) := by
  induction records with
  | nil =>
    intro s hs
    cases raises with
    | some exn => exact ⟨rfl, hweaken _ _ hs, by rintro ⟨_, ⟨⟩⟩⟩
    | none => exact ⟨rfl, hweaken _ _ hs, fun _ => hs⟩
  | cons x rest ih =>
    intro s hs
    obtain ⟨record, env⟩ := x
    rw [readLoop]
    split
    · exact ⟨rfl, hweaken _ _ hs, fun _ => hs⟩
    · dsimp only
      split
      · exact ⟨rfl, hweaken _ _ hs, fun _ => hs⟩
      · have hhands := processRecord_hands st es opts.dryRun env record (countLine s)
        rcases hp : processRecord st es opts.dryRun env record (countLine s) with ⟨r, t⟩
        rw [hp] at hhands
        obtain ⟨hr, hstore⟩ := hhands
        -- the record leaves the store alone or pushes one event
        have hstep : A t.store t.batch ∧ ((∃ o, r = .ok o) → I t.store t.batch) := by
          rcases hstore with ⟨hw, hb⟩ | ⟨hdry, event, hpushed, hok⟩
          · have hkept : I t.store t.batch := by
              rw [show t.store = s.store from hw, show t.batch = s.batch from hb]
              exact hs
            exact ⟨hweaken _ _ hkept, fun _ => hkept⟩
          · have hi := hpush env.store (countLine s).store (countLine s).batch event hdry hs
            rw [← hpushed] at hi
            exact ⟨hi.1, fun h => hi.2 (hok h)⟩
        cases r with
        | error exn => exact ⟨hr, hstep.1, by rintro ⟨_, ⟨⟩⟩⟩
        | ok outcome =>
          obtain ⟨hcr, hcs, hcb⟩ := check_keeps threshold t
          have ht : I (check threshold t).2.store (check threshold t).2.batch := by
            rw [hcs, hcb]
            exact hstep.2 ⟨outcome, rfl⟩
          dsimp only
          split
          · exact ⟨hcr.trans hr, hweaken _ _ ht, by rintro ⟨_, ⟨⟩⟩⟩
          · obtain ⟨hr', ha, hi⟩ := ih _ ht
            exact ⟨hr'.trans (hcr.trans hr), ha, hi⟩

/-- `_execute` ends before the loop, in it, or behind it. -/
theorem execute_cases (st : Stages R E K P τ) (es : EventStore E F σ) (opts : PipelineOptions) (threshold : ℚ)
    (input : Run R F τ) (s : PipelineState E K P σ τ) :
    let p := execute st es opts threshold input s
    let loop := readLoop st es opts threshold input.sourceRaises s input.records
    (∃ exn, p.1 = .error exn ∧ p.2.1 = s) ∨ (∃ exn, p.1 = .error exn ∧ p.2.1 = loop.2.1) ∨
      ∃ ending, loop.1 = .ok ending ∧ p.1 = (complete es opts input.lastBatch loop.2.1).1.map (fun _ => ending) ∧
        p.2.1 = (complete es opts input.lastBatch loop.2.1).2 := by
  unfold execute
  cases input.prepareRaises with
  | some exn => exact .inl ⟨exn, rfl, rfl⟩
  | none =>
    rcases readLoop st es opts threshold input.sourceRaises s input.records with ⟨exn | ending, t, seen⟩
    · exact .inr (.inl ⟨exn, rfl, rfl⟩)
    · exact .inr (.inr ⟨ending, rfl, rfl, rfl⟩)

end

/-! ## The end of a write -/

section
variable (es : EventStore E F σ) {opts : PipelineOptions} (f : F) (s : PipelineState E K P σ τ)

theorem complete_dry (hdry : opts.dryRun = true) :
    let p := complete es opts f s
    p.1 = .ok () ∧ p.2.store = s.store ∧ p.2.batch = s.batch ∧ reported p.2.toParseState = reported s.toParseState := by
  dsimp only
  unfold complete
  rw [hdry]
  exact ⟨rfl, rfl, rfl, rfl⟩

theorem complete_raised (hwet : opts.dryRun = false) {exn : Exn} {w : σ} (h : es.drain f s.store s.batch = (.error exn, w)) :
    complete es opts f s = (.error exn, { s with store := w, batch := [] }) := by
  unfold complete
  rw [hwet, h]
  rfl

theorem complete_written (hwet : opts.dryRun = false) {w : σ} (h : es.drain f s.store s.batch = (.ok (), w)) :
    let p := complete es opts f s
    p.1 = .ok () ∧ p.2.store = es.finish w ∧ p.2.batch = [] ∧
      reported p.2.toParseState = (es.recordsWritten (es.finish w), es.touched (es.finish w)) := by
  dsimp only
  unfold complete
  rw [hwet, h]
  exact ⟨rfl, rfl, rfl, rfl⟩

/-- A result is read from the counters when the files are published, and is as it was when not. -/
theorem finalise_reported :
    let result := (finalise es opts f s).2.result
    (result.recordsWritten, result.outputs) =
      if opts.dryRun = false ∧ (es.flush f s.store).1 = .ok () then
        (es.recordsWritten (es.flush f s.store).2, es.filesWritten (es.flush f s.store).2)
      else reported s.toParseState := by
  have hclose : ∀ t : PipelineState E K P σ τ, reported (close t).toParseState = reported t.toParseState := by
    intro t
    unfold close
    split <;> rfl
  dsimp only
  unfold finalise
  cases opts.dryRun with
  | true =>
    rw [if_pos rfl, if_neg (by simp)]
    exact hclose s
  | false =>
    rw [if_neg (by decide)]
    rcases es.flush f s.store with ⟨exn | ⟨⟩, w⟩
    · rw [if_neg (by simp)]
      dsimp only
      by_cases hcaught : exn.cls = .storageError
      · rw [if_pos hcaught]
        exact hclose _
      · rw [if_neg hcaught]
        exact hclose _
    · rw [if_pos ⟨rfl, rfl⟩]
      exact hclose _

/-- What a run leaves of its store: it is flushed, but not behind a dry run. -/
theorem finalise_store (hwet : opts.dryRun = false) : (finalise es opts f s).2.store = (es.flush f s.store).2 := by
  have hclose : ∀ t : PipelineState E K P σ τ, (close t).store = t.store := by
    intro t
    unfold close
    split <;> rfl
  unfold finalise
  rw [hwet, if_neg (by decide)]
  rcases es.flush f s.store with ⟨exn | ⟨⟩, w⟩
  · dsimp only
    split
    · exact hclose _
    · exact hclose _
  · exact hclose _

theorem finalise_dry (hdry : opts.dryRun = true) : (finalise es opts f s).2.store = s.store := by
  unfold finalise close
  rw [hdry, if_pos rfl]
  dsimp only
  split <;> rfl

theorem finalise_returns (hwet : opts.dryRun = false) (h : (es.flush f s.store).1 = .ok ()) :
    (finalise es opts f s).1 = .ok () := by
  unfold finalise
  rw [hwet, if_neg (by decide)]
  rcases hf : es.flush f s.store with ⟨exn | ⟨⟩, t⟩
  · rw [hf] at h
    cases h
  · rfl

theorem run_store [DecidableEq K] (st : Stages R E K P τ) (threshold : ℚ) (input : Run R F τ) (hwet : opts.dryRun = false) :
    (run st es opts threshold input s).2.store =
      (es.flush input.flush (execute st es opts threshold input s).2.1.store).2 := by
  unfold run
  rcases execute st es opts threshold input s with ⟨exn | ending, t, seen⟩
  · exact finalise_store es input.flush (recordFailure t exn) hwet
  · exact finalise_store es input.flush t hwet

theorem run_dry [DecidableEq K] (st : Stages R E K P τ) (threshold : ℚ) (input : Run R F τ) (hdry : opts.dryRun = true) :
    (run st es opts threshold input s).2.store = (execute st es opts threshold input s).2.1.store := by
  unfold run
  rcases execute st es opts threshold input s with ⟨exn | ending, t, seen⟩
  · exact finalise_dry es input.flush (recordFailure t exn) hdry
  · exact finalise_dry es input.flush t hdry

/-- A run that publishes its files returns. -/
theorem run_returns [DecidableEq K] {st : Stages R E K P τ} {threshold : ℚ} {input : Run R F τ} (hwet : opts.dryRun = false)
    (h : (es.flush input.flush (execute st es opts threshold input s).2.1.store).1 = .ok ()) :
    ∃ result, (run st es opts threshold input s).1 = .ok result := by
  unfold run
  rcases he : execute st es opts threshold input s with ⟨exn | ending, t, seen⟩ <;> rw [he] at h
  · exact ⟨_, Lib.map_ok.2 ⟨(), finalise_returns es input.flush (recordFailure t exn) hwet h, rfl⟩⟩
  · exact ⟨_, Lib.map_ok.2 ⟨(), finalise_returns es input.flush t hwet h, rfl⟩⟩

/-- The result of a run, `t` being where `_execute` left it. -/
theorem run_reported [DecidableEq K] {st : Stages R E K P τ} {threshold : ℚ} {input : Run R F τ} {result : PipelineResult}
    (h : (run st es opts threshold input s).1 = .ok result) :
    let t := (execute st es opts threshold input s).2.1
    (result.recordsWritten, result.outputs) =
      if opts.dryRun = false ∧ (es.flush input.flush t.store).1 = .ok () then
        (es.recordsWritten (es.flush input.flush t.store).2, es.filesWritten (es.flush input.flush t.store).2)
      else reported t.toParseState := by
  unfold run at h
  rcases he : execute st es opts threshold input s with ⟨exn | ending, t, seen⟩ <;> rw [he] at h
  · obtain ⟨_, -, rfl⟩ := Lib.map_ok.1 h
    exact finalise_reported es input.flush (recordFailure t exn)
  · obtain ⟨_, -, rfl⟩ := Lib.map_ok.1 h
    exact finalise_reported es input.flush t

end

end LogPipeline

end LogAnalytics
