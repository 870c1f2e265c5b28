import LogAnalytics.Pipeline.Conservation
/-!
# Reasons of rejection

A rejection is counted twice, by the result and by the dead-letter queue, and `_finalise` copies
the second count into the first where that is empty. `Moves` says what a step does to both; a run
is the sum of its steps.
-/

namespace LogAnalytics.LogPipeline

variable {R E K P F σ τ : Type}

/-- What the stages in front of deduplication make of a record. -/
inductive Ruling (E P : Type) where
  | raises
  | rejects (r : Rejection P)
  | passes (event : E)

def verdict (st : Stages R E K P τ) (env : RecordEnv F τ) (record : RawRecord R) (context : ParseContext) : Ruling E P :=
  match parsePayload st env.now record context with
  | .error exn =>
    match handled exn, text st record with
    | some (reason, detail), .ok raw =>
      .rejects { raw := raw, reason := reason, stage := "parse", detail := detail, source := record.source,
                 lineNumber := record.lineNumber }
    | _, _ => .raises
  | .ok event =>
    match st.transform event with
    | .error exn => .rejects (eventRejection st event .transformError "transform" (Text.ofString exn.msg))
    | .ok event =>
      match st.validate env.now event with
      | .error _ => .raises
      | .ok outcome =>
        if outcome.valid then .passes event
        else .rejects (eventRejection st event outcome.reason "validate" (Text.ofString outcome.detail))

/-- A record and the state it meets. -/
structure Encounter (R E K P F σ τ : Type) where
  state : PipelineState E K P σ τ
  record : RawRecord R
  env : RecordEnv F τ

/-- The queue accepts a rejection, and counts it. -/
def Accepts (st : Stages R E K P τ) (now : τ) (r : Rejection P) : Prop :=
  ∃ row, DeadLetterQueue.rejected st.dlq now r = .ok row

def Encounter.verdict (v : Encounter R E K P F σ τ) (st : Stages R E K P τ) : Ruling E P :=
  LogPipeline.verdict st v.env v.record (v.state.context.enter v.record)

/-- A stage rejects the record, and its row can be appended: the result counts it. -/
def Encounter.Recorded (st : Stages R E K P τ) (v : Encounter R E K P F σ τ) : Prop :=
  ∃ r, v.verdict st = .rejects r ∧ Accepts st v.env.now r ∧ DeadLetterQueue.CanAppend st.dlq v.env.dlq v.state.dlq

/-- The queue counts the record: a stage rejects it, or it is a duplicate to be kept. -/
def Encounter.Counted [DecidableEq K] (st : Stages R E K P τ) (v : Encounter R E K P F σ τ) : Prop :=
  (∃ r, v.verdict st = .rejects r ∧ Accepts st v.env.now r) ∨
    ∃ event, v.verdict st = .passes event ∧ (v.state.deduplicator.isDuplicate st.key event).1 = true ∧
      st.keepDuplicates = true ∧ Accepts st v.env.now (eventRejection st event .duplicate "deduplicate" [])

/-! ## Steps -/

/-- The reasons of a result add up. -/
def Balanced (s : ParseState P τ) : Prop := Lib.total s.result.rejectionReasons = s.result.recordsRejected

/-- From `s` to `t`: the queue has `counted`, the result has `recorded` something. -/
structure Moves (s t : ParseState P τ) (counted recorded : Prop) : Prop where
  balanced : Balanced s → Balanced t
  counts : t.dlq.total ≠ 0 ↔ s.dlq.total ≠ 0 ∨ counted
  reasons : t.result.rejectionReasons ≠ [] ↔ s.result.rejectionReasons ≠ [] ∨ recorded

theorem Moves.trans {s t u : ParseState P τ} {counted recorded counted' recorded' : Prop} (h : Moves s t counted recorded)
    (h' : Moves t u counted' recorded') : Moves s u (counted ∨ counted') (recorded ∨ recorded') :=
  ⟨h'.balanced ∘ h.balanced, by rw [h'.counts, h.counts, or_assoc], by rw [h'.reasons, h.reasons, or_assoc]⟩

theorem Moves.congr {s t : ParseState P τ} {counted recorded counted' recorded' : Prop} (h : Moves s t counted recorded)
    (hcounted : counted ↔ counted') (hrecorded : recorded ↔ recorded') : Moves s t counted' recorded' :=
  ⟨h.balanced, h.counts.trans (or_congr_right hcounted), h.reasons.trans (or_congr_right hrecorded)⟩

/-- A step that rejects nothing. -/
theorem Moves.still {s t : ParseState P τ} (hdlq : t.dlq = s.dlq)
    (hreasons : t.result.rejectionReasons = s.result.rejectionReasons)
    (hrejected : t.result.recordsRejected = s.result.recordsRejected) : Moves s t False False := by
  refine ⟨fun h => ?_, by rw [hdlq, or_false], by rw [hreasons, or_false]⟩
  rw [Balanced, hreasons, hrejected]
  exact h

theorem total_record (c : DlqConfig P) (now : τ) (faults : DlqFaults) (q : DeadLetterQueue P τ) (r : Rejection P) :
    (q.record c now faults r).2.total ≠ 0 ↔ q.total ≠ 0 ∨ ∃ row, DeadLetterQueue.rejected c now r = .ok row := by
  rw [DeadLetterQueue.record]
  cases DeadLetterQueue.rejected c now r with
  | error exn => simp
  | ok row => simp [DeadLetterQueue.total_write]

theorem record_isOk (c : DlqConfig P) (now : τ) (faults : DlqFaults) (q : DeadLetterQueue P τ) (r : Rejection P) :
    (∃ row, (q.record c now faults r).1 = .ok row) ↔
      (∃ row, DeadLetterQueue.rejected c now r = .ok row) ∧ DeadLetterQueue.CanAppend c faults q := by
  rw [DeadLetterQueue.record]
  cases DeadLetterQueue.rejected c now r with
  | error exn => simp
  | ok row =>
    rw [← DeadLetterQueue.write_ok_iff (r := row)]
    simp only [Lib.map_ok, Except.ok.injEq, exists_eq', true_and]
    constructor
    · rintro ⟨_, _, h, _⟩
      exact h
    · intro h
      exact ⟨row, (), h, rfl⟩

theorem reject_moves (c : DlqConfig P) (now : τ) (faults : DlqFaults) (s : ParseState P τ) (r : Rejection P) :
    Moves s (reject c now faults s r).2 (∃ row, DeadLetterQueue.rejected c now r = .ok row)
      ((∃ row, DeadLetterQueue.rejected c now r = .ok row) ∧ DeadLetterQueue.CanAppend c faults s.dlq) := by
  have hcounts := total_record c now faults s.dlq r
  rw [← record_isOk c now faults s.dlq r]
  unfold reject
  rcases hrecord : s.dlq.record c now faults r with ⟨exn | row, dlq⟩
  · rw [hrecord] at hcounts
    exact ⟨id, hcounts, by simp⟩
  · rw [hrecord] at hcounts
    refine ⟨fun h => ?_, hcounts, by simp [PipelineResult.recordRejection, Lib.increment_ne_nil]⟩
    rw [Balanced, PipelineResult.recordRejection, Lib.total_increment, h]

section
variable {st : Stages R E K P τ} {v : Encounter R E K P F σ τ}

theorem Encounter.recorded_iff {r : Rejection P} (h : v.verdict st = .rejects r) : v.Recorded st ↔
    Accepts st v.env.now r ∧ DeadLetterQueue.CanAppend st.dlq v.env.dlq v.state.dlq := by
  constructor
  · rintro ⟨r', hr', haccepts⟩
    cases h.symm.trans hr'
    exact haccepts
  · exact fun haccepts => ⟨r, h, haccepts⟩

theorem Encounter.not_recorded (h : ∀ r, v.verdict st ≠ .rejects r) : ¬ v.Recorded st := by
  rintro ⟨r, hr, -⟩
  exact h r hr

variable [DecidableEq K]

theorem Encounter.counted_rejects {r : Rejection P} (h : v.verdict st = .rejects r) :
    v.Counted st ↔ Accepts st v.env.now r := by
  constructor
  · rintro (⟨r', hr', haccepts⟩ | ⟨event, hevent, -⟩)
    · cases h.symm.trans hr'
      exact haccepts
    · cases h.symm.trans hevent
  · exact fun haccepts => .inl ⟨r, h, haccepts⟩

theorem Encounter.counted_passes {event : E} (h : v.verdict st = .passes event) :
    v.Counted st ↔ (v.state.deduplicator.isDuplicate st.key event).1 = true ∧ st.keepDuplicates = true ∧
      Accepts st v.env.now (eventRejection st event .duplicate "deduplicate" []) := by
  constructor
  · rintro (⟨r, hr, -⟩ | ⟨event', hevent, hkept⟩)
    · cases h.symm.trans hr
    · cases h.symm.trans hevent
      exact hkept
  · exact fun hkept => .inr ⟨event, h, hkept⟩

theorem Encounter.not_counted (h : v.verdict st = .raises) : ¬ v.Counted st := by
  rintro (⟨r, hr, -⟩ | ⟨event, hevent, -⟩)
  · cases h.symm.trans hr
  · cases h.symm.trans hevent

/-- A record that raises before it is rejected changes neither count. -/
theorem Encounter.moves_raises (h : v.verdict st = .raises) {t : ParseState P τ} (hdlq : t.dlq = v.state.dlq)
    (hreasons : t.result.rejectionReasons = v.state.result.rejectionReasons)
    (hrejected : t.result.recordsRejected = v.state.result.recordsRejected) :
    Moves v.state.toParseState t (v.Counted st) (v.Recorded st) := by
  have hnone : ∀ r, v.verdict st ≠ .rejects r := fun r hr => by cases h.symm.trans hr
  exact (Moves.still hdlq hreasons hrejected).congr (iff_of_false id (Encounter.not_counted h))
    (iff_of_false id (Encounter.not_recorded hnone))

/-- A rejected record is in both counts, unless its row cannot be appended. -/
theorem Encounter.moves_rejects {r : Rejection P} (h : v.verdict st = .rejects r) {s : ParseState P τ}
    (hdlq : s.dlq = v.state.dlq) (hreasons : s.result.rejectionReasons = v.state.result.rejectionReasons)
    (hrejected : s.result.recordsRejected = v.state.result.recordsRejected) :
    Moves v.state.toParseState (reject st.dlq v.env.now v.env.dlq s r).2 (v.Counted st) (v.Recorded st) := by
  have hmoves := (Moves.still hdlq hreasons hrejected).trans (reject_moves st.dlq v.env.now v.env.dlq s r)
  rw [hdlq] at hmoves
  refine hmoves.congr ?_ ?_
  · rw [false_or, Encounter.counted_rejects h]
    rfl
  · rw [false_or, Encounter.recorded_iff h]
    rfl

/-- A duplicate to be kept is in the queue's count only. -/
theorem stageDedup_moves (store : EventStore E F σ) (dryRun : Bool) {event : E} (h : v.verdict st = .passes event)
    {s : PipelineState E K P σ τ} (hdedup : s.deduplicator = v.state.deduplicator) (hdlq : s.dlq = v.state.dlq)
    (hreasons : s.result.rejectionReasons = v.state.result.rejectionReasons)
    (hrejected : s.result.recordsRejected = v.state.result.recordsRejected) :
    Moves v.state.toParseState (stageDedup st store dryRun v.env s event).2.toParseState (v.Counted st) (v.Recorded st) := by
  have hnone : ¬ v.Recorded st := Encounter.not_recorded fun r hr => by cases h.symm.trans hr
  have hstill := Moves.still hdlq hreasons hrejected
  rw [stageDedup, hdedup]
  dsimp only
  cases hduplicate : (v.state.deduplicator.isDuplicate st.key event).1 with
  | true =>
    cases hkeep : st.keepDuplicates with
    | true =>
      have hcounts := total_record st.dlq v.env.now v.env.dlq v.state.dlq (eventRejection st event .duplicate "deduplicate" [])
      refine ⟨fun hb => hstill.balanced hb, ?_, ?_⟩
      · rw [Encounter.counted_passes h, hduplicate, hkeep]
        simpa [hdlq, Accepts] using hcounts
      · simp [hnone, hreasons]
    | false =>
      refine hstill.congr (iff_of_false id fun hcounted => ?_) (iff_of_false id hnone)
      rw [Encounter.counted_passes h, hkeep] at hcounted
      cases hcounted.2.1
  | false =>
    have hsame : (keep store dryRun v.env { s with deduplicator := (v.state.deduplicator.isDuplicate st.key event).2 }
        event).2.toParseState = s.toParseState := by
      unfold keep
      split <;> rfl
    rw [if_neg (by decide), hsame]
    refine hstill.congr (iff_of_false id fun hcounted => ?_) (iff_of_false id hnone)
    rw [Encounter.counted_passes h, hduplicate] at hcounted
    cases hcounted.1

theorem processRecord_moves (st : Stages R E K P τ) (store : EventStore E F σ) (dryRun : Bool)
    (v : Encounter R E K P F σ τ) :
    Moves v.state.toParseState (processRecord st store dryRun v.env v.record v.state).2.toParseState (v.Counted st)
      (v.Recorded st) := by
  have hverdict : v.verdict st = verdict st v.env v.record (v.state.context.enter v.record) := rfl
  rw [verdict] at hverdict
  unfold processRecord parseOne
  dsimp only
  cases hparse : parsePayload st v.env.now v.record (v.state.context.enter v.record) with
  | error exn =>
    rw [hparse] at hverdict
    dsimp only at hverdict ⊢
    cases hhandled : handled exn with
    | none =>
      rw [hhandled] at hverdict
      exact Encounter.moves_raises hverdict rfl rfl rfl
    | some caught =>
      obtain ⟨reason, detail⟩ := caught
      rw [hhandled] at hverdict
      cases htext : text st v.record with
      | error exn =>
        rw [htext] at hverdict
        exact Encounter.moves_raises hverdict rfl rfl rfl
      | ok raw =>
        rw [htext] at hverdict
        dsimp only at hverdict ⊢
        have hmoves := Encounter.moves_rejects hverdict (s := { v.state.toParseState with
          context := v.state.context.enter v.record }) rfl rfl rfl
        rcases hdone : reject st.dlq v.env.now v.env.dlq { v.state.toParseState with
          context := v.state.context.enter v.record } _ with ⟨_ | _, q⟩
        · rw [hdone] at hmoves
          exact hmoves
        · rw [hdone] at hmoves
          exact hmoves
  | ok event =>
    rw [hparse] at hverdict
    dsimp only at hverdict ⊢
    unfold stageTransform
    cases htransform : st.transform event with
    | error exn =>
      rw [htransform] at hverdict
      exact Encounter.moves_rejects hverdict rfl rfl rfl
    | ok event' =>
      rw [htransform] at hverdict
      dsimp only at hverdict ⊢
      unfold stageValidate
      cases hvalidate : st.validate v.env.now event' with
      | error exn =>
        rw [hvalidate] at hverdict
        exact Encounter.moves_raises hverdict rfl rfl rfl
      | ok outcome =>
        rw [hvalidate] at hverdict
        dsimp only at hverdict ⊢
        cases hvalid : outcome.valid with
        | true =>
          rw [hvalid, if_pos rfl] at hverdict
          exact stageDedup_moves store dryRun hverdict rfl rfl rfl rfl
        | false =>
          rw [hvalid, if_neg (by decide)] at hverdict
          exact Encounter.moves_rejects hverdict rfl rfl rfl

end

/-! ## Runs -/

section
variable [DecidableEq K] (st : Stages R E K P τ) (store : EventStore E F σ) (opts : PipelineOptions) (threshold : ℚ)

/-- The records the read loop gets to, each with the state it meets. -/
def encountersFrom : PipelineState E K P σ τ → List (RawRecord R × RecordEnv F τ) → List (Encounter R E K P F σ τ)
  | _, [] => []
  | s, (record, env) :: rest =>
    if env.stopping then []
    else
      let s := countLine s
      if opts.limit.any (· ≤ s.result.recordsParsed) then []
      else
        ⟨s, record, env⟩ ::
          match processRecord st store opts.dryRun env record s with
          | (.error _, _) => []
          | (.ok _, s) =>
            let (checkpoint, s) := check threshold s
            if checkpoint.any (·.aborts) then [] else encountersFrom s rest

/-- The records a run gets to. -/
def encounters (input : Run R F τ) (s : PipelineState E K P σ τ) : List (Encounter R E K P F σ τ) :=
  match input.prepareRaises with
  | some _ => []
  | none => encountersFrom st store opts threshold s input.records

theorem readLoop_moves (raises : Option Exn) (records : List (RawRecord R × RecordEnv F τ)) (s : PipelineState E K P σ τ) :
    Moves s.toParseState (readLoop st store opts threshold raises s records).2.1.toParseState
      (∃ v ∈ encountersFrom st store opts threshold s records, v.Counted st)
      (∃ v ∈ encountersFrom st store opts threshold s records, v.Recorded st) := by
  have hnone : ∀ p : Encounter R E K P F σ τ → Prop, False ↔ ∃ v ∈ ([] : List (Encounter R E K P F σ τ)), p v :=
    fun p => iff_of_false id fun ⟨_, hv, _⟩ => List.not_mem_nil hv
  induction records generalizing s with
  | nil =>
    have hsame : (readLoop st store opts threshold raises s []).2.1 = s := by cases raises <;> rfl
    rw [hsame]
    exact (Moves.still rfl rfl rfl).congr (hnone _) (hnone _)
  | cons x rest ih =>
    obtain ⟨record, env⟩ := x
    rw [readLoop, encountersFrom]
    by_cases hstop : env.stopping = true
    · rw [if_pos hstop, if_pos hstop]
      exact (Moves.still rfl rfl rfl).congr (hnone _) (hnone _)
    rw [if_neg hstop, if_neg hstop]
    dsimp only
    by_cases hlimit : opts.limit.any (· ≤ (countLine s).result.recordsParsed) = true
    · rw [if_pos hlimit, if_pos hlimit]
      exact (Moves.still (s := s.toParseState) (t := (countLine s).toParseState) rfl rfl rfl).congr (hnone _) (hnone _)
    rw [if_neg hlimit, if_neg hlimit]
    simp only [List.exists_mem_cons_iff]
    -- counting the line is no rejection
    have hmoves : Moves s.toParseState (processRecord st store opts.dryRun env record (countLine s)).2.toParseState
        ((⟨countLine s, record, env⟩ : Encounter R E K P F σ τ).Counted st)
        ((⟨countLine s, record, env⟩ : Encounter R E K P F σ τ).Recorded st) :=
      have h := processRecord_moves st store opts.dryRun ⟨countLine s, record, env⟩
      ⟨h.balanced, h.counts, h.reasons⟩
    rcases hdone : processRecord st store opts.dryRun env record (countLine s) with ⟨exn | outcome, t⟩
    · rw [hdone] at hmoves
      exact hmoves.congr (by rw [← hnone, or_false]) (by rw [← hnone, or_false])
    · rw [hdone] at hmoves
      dsimp only
      have hcheck : Moves s.toParseState (check threshold t).2.toParseState
          ((⟨countLine s, record, env⟩ : Encounter R E K P F σ τ).Counted st)
          ((⟨countLine s, record, env⟩ : Encounter R E K P F σ τ).Recorded st) := by
        rw [check_eq]
        exact ⟨hmoves.balanced, hmoves.counts, hmoves.reasons⟩
      by_cases habort : (check threshold t).1.any (·.aborts) = true
      · rw [if_pos habort, if_pos habort]
        exact hcheck.congr (by rw [← hnone, or_false]) (by rw [← hnone, or_false])
      · rw [if_neg habort, if_neg habort]
        exact hcheck.trans (ih (check threshold t).2)

theorem execute_moves (input : Run R F τ) (s : PipelineState E K P σ τ) :
    Moves s.toParseState (execute st store opts threshold input s).2.1.toParseState
      (∃ v ∈ encounters st store opts threshold input s, v.Counted st)
      (∃ v ∈ encounters st store opts threshold input s, v.Recorded st) := by
  rw [execute, encounters]
  cases input.prepareRaises with
  | some exn => exact (Moves.still rfl rfl rfl).congr (by simp) (by simp)
  | none =>
    dsimp only
    have hmoves := readLoop_moves st store opts threshold input.sourceRaises input.records s
    rcases hloop : readLoop st store opts threshold input.sourceRaises s input.records with ⟨exn | ending, t, seen⟩
    · rw [hloop] at hmoves
      exact hmoves
    · rw [hloop] at hmoves
      dsimp only
      have hcomplete : Moves t.toParseState (complete store opts input.lastBatch t).2.toParseState False False := by
        unfold complete
        split
        · exact Moves.still rfl rfl rfl
        · split
          · exact Moves.still rfl rfl rfl
          · exact Moves.still rfl rfl rfl
      exact (hmoves.trans hcomplete).congr (iff_of_eq (or_false _)) (iff_of_eq (or_false _))

variable {st store opts threshold}

omit [DecidableEq K] in
theorem finalise_close (store : EventStore E F σ) (opts : PipelineOptions) (f : F) (s : PipelineState E K P σ τ) :
    ∃ t : PipelineState E K P σ τ, (finalise store opts f s).2 = close t ∧ t.dlq = s.dlq ∧
      t.result.rejectionReasons = s.result.rejectionReasons ∧ t.result.recordsRejected = s.result.recordsRejected := by
  unfold finalise
  split
  · exact ⟨s, rfl, rfl, rfl, rfl⟩
  · split
    · exact ⟨_, rfl, rfl, rfl, rfl⟩
    · split
      · exact ⟨_, rfl, rfl, rfl, rfl⟩
      · exact ⟨_, rfl, rfl, rfl, rfl⟩

omit [DecidableEq K] in
/-- The reasons add up in the end, unless the counts of the queue were copied. -/
theorem balanced_close {s : PipelineState E K P σ τ} (h : Balanced s.toParseState) :
    Balanced (close s).toParseState ↔ s.result.rejectionReasons ≠ [] ∨ s.dlq.total = 0 := by
  unfold close
  by_cases hcopy : s.dlq.total ≠ 0 ∧ s.result.rejectionReasons = []
  · rw [if_pos hcopy]
    refine iff_of_false (fun hb => hcopy.1 ?_) (not_or.2 ⟨not_not.2 hcopy.2, hcopy.1⟩)
    have hzero : s.result.recordsRejected = 0 := by
      rw [← h, hcopy.2]
      rfl
    exact hb.trans hzero
  · rw [if_neg hcopy]
    exact iff_of_true h ((not_and_or.1 hcopy).symm.imp_right not_not.1)

omit [DecidableEq K] in
theorem balanced_finalise (store : EventStore E F σ) (opts : PipelineOptions) (f : F) {s : PipelineState E K P σ τ}
    (h : Balanced s.toParseState) : Balanced (finalise store opts f s).2.toParseState ↔
      s.result.rejectionReasons ≠ [] ∨ s.dlq.total = 0 := by
  obtain ⟨t, hclose, hdlq, hreasons, hrejected⟩ := finalise_close store opts f s
  have ht : Balanced t.toParseState := by rw [Balanced, hreasons, hrejected]; exact h
  rw [hclose, balanced_close ht, hreasons, hdlq]

/-- However a run ends, its reasons add up to the rejected records exactly if one of its records was
rejected and recorded, or the queue, new at the start, counted none. -/
theorem run_reasons_sum_iff (st : Stages R E K P τ) (store : EventStore E F σ) (opts : PipelineOptions) (threshold : ℚ)
    (input : Run R F τ) (context : ParseContext) (dlq : DeadLetterQueue P τ) (seen : SeenKeys K) (x : σ) :
    let s : PipelineState E K P σ τ := start context dlq seen x
    let result := (run st store opts threshold input s).2.result
    (result.rejectionReasons.map Prod.snd).sum = result.recordsRejected ↔
      (∃ v ∈ encounters st store opts threshold input s, v.Recorded st) ∨
        dlq.total = 0 ∧ ∀ v ∈ encounters st store opts threshold input s, ¬ v.Counted st := by
  intro s result
  have hmoves := execute_moves st store opts threshold input s
  have hstart : Balanced s.toParseState := rfl
  have hrun : ∃ t : PipelineState E K P σ τ, result = (finalise store opts input.flush t).2.result ∧
      Moves s.toParseState t.toParseState (∃ v ∈ encounters st store opts threshold input s, v.Counted st)
        (∃ v ∈ encounters st store opts threshold input s, v.Recorded st) := by
    dsimp only [result]
    rw [run]
    rcases hdone : execute st store opts threshold input s with ⟨exn | ending, t, trace⟩
    · rw [hdone] at hmoves
      exact ⟨recordFailure t exn, rfl, hmoves.balanced, hmoves.counts, hmoves.reasons⟩
    · rw [hdone] at hmoves
      exact ⟨t, rfl, hmoves⟩
  obtain ⟨t, hresult, hmoves⟩ := hrun
  rw [hresult]
  have hend := balanced_finalise store opts input.flush (hmoves.balanced hstart)
  rw [hmoves.reasons, ← not_ne_iff (a := t.dlq.total), hmoves.counts] at hend
  have hnone : s.result.rejectionReasons = [] := rfl
  have hdlq : s.dlq = dlq := rfl
  rw [hnone, hdlq] at hend
  refine hend.trans (or_congr (by simp) ?_)
  rw [not_or, not_not]
  simp

/-- The second of two equal lines, where duplicates are kept. -/
theorem reasons_of_duplicates :
    let s : PipelineState Text Text Unit (TextWrite Unit Text) Unit :=
      start {} {} (SeenKeys.empty 10 SeenKeys.one_le_ten) { store := { files := ∅ } }
    let result := (run lineStages lineStore {} (1 / 2) (lineRun ["a", "a"]) s).2.result
    (result.rejectionReasons.map Prod.snd).sum ≠ result.recordsRejected := by
  decide

end

end LogAnalytics.LogPipeline
