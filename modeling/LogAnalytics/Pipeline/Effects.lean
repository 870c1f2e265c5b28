import LogAnalytics.Lib.Loops
import LogAnalytics.Pipeline.Orchestrator
/-!
# What processing a record changes

`Passed` sums up `processRecord`: a record that raises nothing ends in one of five ways, and
each says what the stages made of the record and what state it leaves. The counters follow
from it.
-/

namespace LogAnalytics.LogPipeline

variable {R E K P F σ τ : Type}

section
variable [DecidableEq K] (st : Stages R E K P τ) (store : EventStore E F σ) (dryRun : Bool) (env : RecordEnv F τ) (record : RawRecord R)
  (s : PipelineState E K P σ τ)

/-- The ways a record passes through the stages. -/
inductive Passed : Outcome → PipelineState E K P σ τ → Prop
  | unparsed (exn : Exn) (reason : RejectReason) (detail : Text) (dlq : DeadLetterQueue P τ)
      (parse : parsePayload st env.now record (s.context.enter record) = .error exn)
      (caught : handled exn = some (reason, detail)) :
      Passed .unparsed { s with
        context := s.context.enter record, dlq := dlq, result := s.result.recordRejection reason }
  | untransformed (event : E) (exn : Exn) (dlq : DeadLetterQueue P τ)
      (parse : parsePayload st env.now record (s.context.enter record) = .ok event)
      (transform : st.transform event = .error exn) :
      Passed .untransformed { s with
        context := s.context.enter record
        dlq := dlq
        result := { s.result with recordsParsed := s.result.recordsParsed + 1 }.recordRejection .transformError }
  | invalid (event event' : E) (outcome : ValidationResult) (dlq : DeadLetterQueue P τ)
      (parse : parsePayload st env.now record (s.context.enter record) = .ok event)
      (transform : st.transform event = .ok event')
      (validate : st.validate env.now event' = .ok outcome) (invalid : outcome.valid = false) :
      Passed .invalid { s with
        context := s.context.enter record
        dlq := dlq
        result := { s.result with recordsParsed := s.result.recordsParsed + 1 }.recordRejection outcome.reason }
  | duplicate (event event' : E) (outcome : ValidationResult) (dlq : DeadLetterQueue P τ)
      (parse : parsePayload st env.now record (s.context.enter record) = .ok event)
      (transform : st.transform event = .ok event')
      (validate : st.validate env.now event' = .ok outcome) (valid : outcome.valid = true)
      (seen : (s.deduplicator.isDuplicate st.key event').1 = true) :
      Passed .duplicate { s with
        context := s.context.enter record
        dlq := dlq
        deduplicator := (s.deduplicator.isDuplicate st.key event').2
        result := { s.result with
          recordsParsed := s.result.recordsParsed + 1, recordsValid := s.result.recordsValid + 1 } }
  | kept (event event' : E) (outcome : ValidationResult) (t : σ) (batch : List E)
      (parse : parsePayload st env.now record (s.context.enter record) = .ok event)
      (transform : st.transform event = .ok event')
      (validate : st.validate env.now event' = .ok outcome) (valid : outcome.valid = true)
      (seen : (s.deduplicator.isDuplicate st.key event').1 = false)
      (pushed : dryRun = false → store.push env.store s.store s.batch event' = (.ok (), t, batch)) :
      Passed .kept { s with
        context := s.context.enter record
        deduplicator := (s.deduplicator.isDuplicate st.key event').2
        result := { s.result with
          recordsParsed := s.result.recordsParsed + 1, recordsValid := s.result.recordsValid + 1 }
        store := t
        batch := batch }

end

/-! ## Inversion, stage by stage -/

theorem reject_ok {c : DlqConfig P} {now : τ} {faults : DlqFaults} {s t : ParseState P τ} {r : Rejection P}
    (h : reject c now faults s r = (.ok (), t)) :
    ∃ dlq, t = { s with dlq := dlq, result := s.result.recordRejection r.reason } := by
  unfold reject at h
  split at h
  · cases h
  · cases h
    exact ⟨_, rfl⟩

/-- A rejection is made when the queue takes the record. -/
theorem reject_fst (c : DlqConfig P) (now : τ) (faults : DlqFaults) (s : ParseState P τ) (r : Rejection P) :
    (reject c now faults s r).1 = (s.dlq.record c now faults r).1.map fun _ => () := by
  unfold reject
  rcases s.dlq.record c now faults r with ⟨_ | _, _⟩ <;> rfl

/-- A record `_parse_one` rejects has raised an exception it handles. -/
theorem parseOne_none {st : Stages R E K P τ} {env : RecordEnv F τ} {record : RawRecord R} {s t : ParseState P τ}
    (h : parseOne st env record s = (.ok none, t)) :
    ∃ exn reason detail dlq, parsePayload st env.now record (s.context.enter record) = .error exn ∧
      handled exn = some (reason, detail) ∧
      t = { context := s.context.enter record, dlq := dlq, result := s.result.recordRejection reason } := by
  unfold parseOne at h
  dsimp only at h
  split at h
  · cases h
  · next exn hp =>
    split at h
    · cases h
    · next reason detail hh =>
      split at h
      · cases h
      · next raw _ =>
        simp only [Prod.mk.injEq, Lib.map_ok] at h
        obtain ⟨⟨_, hr, -⟩, rfl⟩ := h
        obtain ⟨dlq, ht⟩ := reject_ok (Prod.ext hr rfl)
        exact ⟨exn, reason, detail, dlq, hp, hh, ht⟩

theorem parseOne_some {st : Stages R E K P τ} {env : RecordEnv F τ} {record : RawRecord R} {s t : ParseState P τ}
    {event : E} (h : parseOne st env record s = (.ok (some event), t)) :
    parsePayload st env.now record (s.context.enter record) = .ok event ∧
      t = { s with context := s.context.enter record } := by
  unfold parseOne at h
  dsimp only at h
  split at h
  · next hp =>
    cases h
    exact ⟨hp, rfl⟩
  · split at h
    · cases h
    · split at h
      · cases h
      · simp only [Prod.mk.injEq, Lib.map_ok] at h
        obtain ⟨⟨_, _, hn⟩, -⟩ := h
        cases hn

theorem rejectEvent_ok {st : Stages R E K P τ} {env : RecordEnv F τ} {s t : PipelineState E K P σ τ} {r : Rejection P}
    {o o' : Outcome} (h : rejectEvent st env s r o = (.ok o', t)) :
    o' = o ∧ ∃ dlq, t = { s with dlq := dlq, result := s.result.recordRejection r.reason } := by
  simp only [rejectEvent, Prod.mk.injEq, Lib.map_ok] at h
  obtain ⟨⟨_, hr, rfl⟩, rfl⟩ := h
  obtain ⟨dlq, hp⟩ := reject_ok (Prod.ext hr rfl)
  exact ⟨rfl, dlq, congrArg (fun p => { s with toParseState := p }) hp⟩

theorem keep_ok {store : EventStore E F σ} {dryRun : Bool} {env : RecordEnv F τ} {s t : PipelineState E K P σ τ}
    {event : E} {o : Outcome} (h : keep store dryRun env s event = (.ok o, t)) :
    o = .kept ∧ ∃ x batch, t = { s with store := x, batch := batch } ∧
      (dryRun = false → store.push env.store s.store s.batch event = (.ok (), x, batch)) := by
  unfold keep at h
  cases dryRun with
  | true =>
    cases h
    exact ⟨rfl, s.store, s.batch, rfl, by simp⟩
  | false =>
    simp only [Bool.false_eq_true, if_false, Prod.mk.injEq, Lib.map_ok] at h
    obtain ⟨⟨_, hr, rfl⟩, rfl⟩ := h
    exact ⟨rfl, _, _, rfl, fun _ => Prod.ext hr rfl⟩

section
variable [DecidableEq K] {st : Stages R E K P τ} {store : EventStore E F σ} {dryRun : Bool} {env : RecordEnv F τ}
  {record : RawRecord R} {s t : PipelineState E K P σ τ} {o : Outcome}

theorem stageDedup_ok {event : E} (h : stageDedup st store dryRun env s event = (.ok o, t)) :
    let d := s.deduplicator.isDuplicate st.key event
    (o = .duplicate ∧ d.1 = true ∧ ∃ dlq, t = { s with dlq := dlq, deduplicator := d.2 }) ∨
    (o = .kept ∧ d.1 = false ∧ ∃ x batch, t = { s with deduplicator := d.2, store := x, batch := batch } ∧
      (dryRun = false → store.push env.store s.store s.batch event = (.ok (), x, batch))) := by
  unfold stageDedup at h
  dsimp only at h ⊢
  cases hd : (s.deduplicator.isDuplicate st.key event).1 with
  | true =>
    rw [hd, if_pos rfl] at h
    split at h
    · simp only [Prod.mk.injEq, Lib.map_ok] at h
      obtain ⟨⟨_, _, ho⟩, ht⟩ := h
      exact .inl ⟨ho.symm, rfl, _, ht.symm⟩
    · cases h
      exact .inl ⟨rfl, rfl, s.dlq, rfl⟩
  | false =>
    rw [hd, if_neg (by decide)] at h
    obtain ⟨rfl, x, batch, ht, hp⟩ := keep_ok h
    exact .inr ⟨rfl, rfl, x, batch, ht, hp⟩

/-- What `processRecord` does when nothing raises. -/
theorem processRecord_passed (h : processRecord st store dryRun env record s = (.ok o, t)) :
    Passed st store dryRun env record s o t := by
  unfold processRecord at h
  split at h
  · cases h
  · next p hp =>
    obtain ⟨exn, reason, detail, dlq, hparse, hcaught, rfl⟩ := parseOne_none hp
    cases h
    exact .unparsed exn reason detail dlq hparse hcaught
  · next event p hp =>
    obtain ⟨hparse, rfl⟩ := parseOne_some hp
    unfold stageTransform at h
    split at h
    · next event' htransform =>
      unfold stageValidate at h
      split at h
      · cases h
      · next outcome hvalidate =>
        split at h
        · next hvalid =>
          rcases stageDedup_ok h with ⟨rfl, hseen, dlq, rfl⟩ | ⟨rfl, hseen, x, batch, rfl, hpush⟩
          · exact .duplicate event event' outcome dlq hparse htransform hvalidate hvalid hseen
          · exact .kept event event' outcome x batch hparse htransform hvalidate hvalid hseen hpush
        · next hvalid =>
          obtain ⟨rfl, dlq, rfl⟩ := rejectEvent_ok h
          exact .invalid event event' outcome dlq hparse htransform hvalidate (by simpa using hvalid)
    · next exn htransform =>
      obtain ⟨rfl, dlq, rfl⟩ := rejectEvent_ok h
      exact .untransformed event exn dlq hparse htransform

/-! ## Runs -/

/-- What every record keeps, the read loop keeps. The records it got to are the first `k`; when
the source ended, the invariant is that of the state it left. -/
theorem readLoop_inv (st : Stages R E K P τ) (store : EventStore E F σ) (opts : PipelineOptions) (threshold : ℚ)
    (raises : Option Exn)
    (I : PipelineState E K P σ τ → List (RawRecord R × RecordEnv F τ) → List Observed → Prop)
    (hstep : ∀ s done seen record env o t, I s done seen →
      Passed st store opts.dryRun env record (countLine s) o t →
      I (check threshold t).2 (done ++ [(record, env)]) (seen ++ [⟨o, (check threshold t).1⟩]))
    (records : List (RawRecord R × RecordEnv F τ)) :
    ∀ (s : PipelineState E K P σ τ) (done : List (RawRecord R × RecordEnv F τ)) (seen : List Observed), I s done seen →
      ∃ k u, I u (done ++ records.take k) (seen ++ (readLoop st store opts threshold raises s records).2.2) ∧
        ((readLoop st store opts threshold raises s records).1 = .ok .exhausted →
          (readLoop st store opts threshold raises s records).2.1 = u) := by
  induction records with
  | nil =>
    intro s done seen hI
    refine ⟨0, s, ?_⟩
    cases raises with
    | none => exact ⟨by simpa [readLoop] using hI, fun _ => rfl⟩
    | some exn => exact ⟨by simpa [readLoop] using hI, fun h => by cases h⟩
  | cons x rest ih =>
    intro s done seen hI
    obtain ⟨record, env⟩ := x
    rw [readLoop]
    split
    · exact ⟨0, s, by simpa using hI, fun h => by cases h⟩
    · dsimp only
      split
      · exact ⟨0, s, by simpa using hI, fun h => by cases h⟩
      · split
        · exact ⟨0, s, by simpa using hI, fun h => by cases h⟩
        · next o t hp =>
          have hI' := hstep s done seen record env o t hI (processRecord_passed hp)
          split
          · -- the check after this record ends the run, and the trace ends with it
            exact ⟨1, _, by simpa using hI', fun h => by cases h⟩
          · obtain ⟨k, u, hu, ht⟩ := ih _ _ _ hI'
            exact ⟨k + 1, u, by simpa using hu, ht⟩

theorem execute_trace (st : Stages R E K P τ) (store : EventStore E F σ) (opts : PipelineOptions) (threshold : ℚ)
    {input : Run R F τ} (h : input.prepareRaises = none) (s : PipelineState E K P σ τ) :
    (execute st store opts threshold input s).2.2 =
      (readLoop st store opts threshold input.sourceRaises s input.records).2.2 := by
  rw [execute, h]
  dsimp only
  split <;> next he => rw [he]

end

end LogAnalytics.LogPipeline
