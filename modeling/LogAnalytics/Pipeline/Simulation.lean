import LogAnalytics.Pipeline.Orchestrator
/-!
# The store a run writes to

A run sees its store only through the answers of its operations. Two states of the store that
answer alike, and go on doing so, give the same run.
-/

namespace LogAnalytics

variable {R E K P F σ τ : Type}

/-- The operations of the store answer alike in related states, and leave related states. -/
structure EventStore.Simulation (es : EventStore E F σ) (T : σ → σ → Prop) : Prop where
  writeBatch : ∀ f s t batch, T s t →
    (es.writeBatch f s batch).1 = (es.writeBatch f t batch).1 ∧ T (es.writeBatch f s batch).2 (es.writeBatch f t batch).2
  finish : ∀ s t, T s t → T (es.finish s) (es.finish t)
  flush : ∀ f s t, T s t → (es.flush f s).1 = (es.flush f t).1 ∧ T (es.flush f s).2 (es.flush f t).2
  recordsWritten : ∀ s t, T s t → es.recordsWritten s = es.recordsWritten t
  touched : ∀ s t, T s t → es.touched s = es.touched t
  filesWritten : ∀ s t, T s t → es.filesWritten s = es.filesWritten t

namespace EventStore.Simulation

variable {es : EventStore E F σ} {T : σ → σ → Prop}

theorem push (h : es.Simulation T) {s t : σ} (hst : T s t) (f : F) (batch : List E) (event : E) :
    (es.push f s batch event).1 = (es.push f t batch event).1 ∧
      T (es.push f s batch event).2.1 (es.push f t batch event).2.1 ∧
      (es.push f s batch event).2.2 = (es.push f t batch event).2.2 := by
  obtain ⟨hr, ht⟩ := h.writeBatch f s t (batch ++ [event]) hst
  unfold EventStore.push
  dsimp only
  split
  · exact ⟨hr, ht, rfl⟩
  · exact ⟨rfl, hst, rfl⟩

theorem drain (h : es.Simulation T) {s t : σ} (hst : T s t) (f : F) (batch : List E) :
    (es.drain f s batch).1 = (es.drain f t batch).1 ∧ T (es.drain f s batch).2 (es.drain f t batch).2 := by
  unfold EventStore.drain
  split
  · exact ⟨rfl, hst⟩
  · exact h.writeBatch f s t batch hst

end EventStore.Simulation

namespace LogPipeline

/-- The same state but for the store, which is in a related one. -/
def SameBut (T : σ → σ → Prop) (s t : PipelineState E K P σ τ) : Prop := ∃ x, t = { s with store := x } ∧ T s.store x

/-- The same result, and states that are the same but for the store. -/
def Alike {α : Type} (T : σ → σ → Prop) (r r' : Except Exn α × PipelineState E K P σ τ) : Prop :=
  r.1 = r'.1 ∧ SameBut T r.2 r'.2

variable [DecidableEq K] {es : EventStore E F σ} {T : σ → σ → Prop} (h : es.Simulation T)
include h

omit [DecidableEq K] in
theorem keep_alike (dryRun : Bool) (env : RecordEnv F τ) {s t : PipelineState E K P σ τ} (hst : SameBut T s t) (event : E) :
    Alike T (keep es dryRun env s event) (keep es dryRun env t event) := by
  obtain ⟨x, rfl, hx⟩ := hst
  unfold keep
  split
  · exact ⟨rfl, x, rfl, hx⟩
  · obtain ⟨hr, ht, hb⟩ := h.push hx env.store s.batch event
    refine ⟨congrArg (Except.map _) hr, _, ?_, ht⟩
    dsimp only
    rw [hb]

theorem processRecord_alike (st : Stages R E K P τ) (dryRun : Bool) (env : RecordEnv F τ) (record : RawRecord R)
    {s t : PipelineState E K P σ τ} (hst : SameBut T s t) :
    Alike T (processRecord st es dryRun env record s) (processRecord st es dryRun env record t) := by
  obtain ⟨x, rfl, hx⟩ := hst
  unfold processRecord
  dsimp only
  split
  · exact ⟨rfl, x, rfl, hx⟩
  · exact ⟨rfl, x, rfl, hx⟩
  · unfold stageTransform
    split
    · unfold stageValidate
      split
      · exact ⟨rfl, x, rfl, hx⟩
      · split
        · unfold stageDedup
          dsimp only
          split
          · split
            · exact ⟨rfl, x, rfl, hx⟩
            · exact ⟨rfl, x, rfl, hx⟩
          · apply keep_alike h dryRun env
            exact ⟨x, rfl, hx⟩
        · exact ⟨rfl, x, rfl, hx⟩
    · exact ⟨rfl, x, rfl, hx⟩

theorem readLoop_alike (st : Stages R E K P τ) (opts : PipelineOptions) (threshold : ℚ) (raises : Option Exn)
    (records : List (RawRecord R × RecordEnv F τ)) : ∀ {s t : PipelineState E K P σ τ}, SameBut T s t →
      (readLoop st es opts threshold raises s records).1 = (readLoop st es opts threshold raises t records).1 ∧
        SameBut T (readLoop st es opts threshold raises s records).2.1 (readLoop st es opts threshold raises t records).2.1 := by
  induction records with
  | nil =>
    rintro s t ⟨x, rfl, hx⟩
    cases raises with
    | none => exact ⟨rfl, x, rfl, hx⟩
    | some exn => exact ⟨rfl, x, rfl, hx⟩
  | cons record rest ih =>
    obtain ⟨record, env⟩ := record
    rintro s t ⟨x, rfl, hx⟩
    rw [readLoop, readLoop]
    split
    · exact ⟨rfl, x, rfl, hx⟩
    · dsimp only
      by_cases hlimit : opts.limit.any (· ≤ (countLine s).result.recordsParsed) = true
      · have hlimit' : opts.limit.any (· ≤ (countLine { s with store := x }).result.recordsParsed) = true := hlimit
        rw [if_pos hlimit, if_pos hlimit']
        exact ⟨rfl, x, rfl, hx⟩
      · have hlimit' : ¬ opts.limit.any (· ≤ (countLine { s with store := x }).result.recordsParsed) = true := hlimit
        rw [if_neg hlimit, if_neg hlimit']
        have hstep : SameBut T (countLine s) (countLine { s with store := x }) := ⟨x, rfl, hx⟩
        obtain ⟨hr, y, hy, hxy⟩ := processRecord_alike h st opts.dryRun env record hstep
        rcases hs : processRecord st es opts.dryRun env record (countLine s) with ⟨r, u⟩
        rcases ht : processRecord st es opts.dryRun env record (countLine { s with store := x }) with ⟨r', u'⟩
        rw [hs, ht] at hr hy
        rw [hs] at hxy
        dsimp only at hr hy hxy
        subst hr hy
        cases r with
        | error exn => exact ⟨rfl, y, rfl, hxy⟩
        | ok outcome =>
          dsimp only
          unfold check
          dsimp only
          split
          · split
            · exact ⟨rfl, y, rfl, hxy⟩
            · exact ih ⟨y, rfl, hxy⟩
          · exact ih ⟨y, rfl, hxy⟩

omit [DecidableEq K] in
theorem complete_alike (opts : PipelineOptions) (f : F) {s t : PipelineState E K P σ τ} (hst : SameBut T s t) :
    Alike T (complete es opts f s) (complete es opts f t) := by
  obtain ⟨x, rfl, hx⟩ := hst
  unfold complete
  dsimp only
  split
  · exact ⟨rfl, x, rfl, hx⟩
  · obtain ⟨hr, hd⟩ := h.drain hx f s.batch
    rcases hs : es.drain f s.store s.batch with ⟨r, u⟩
    rcases ht : es.drain f x s.batch with ⟨r', u'⟩
    rw [hs, ht] at hr hd
    dsimp only at hr hd
    subst hr
    rcases r with exn | ⟨⟩
    · exact ⟨rfl, u', rfl, hd⟩
    · have hfinish := h.finish u u' hd
      refine ⟨rfl, es.finish u', ?_, hfinish⟩
      dsimp only
      rw [h.touched _ _ hfinish, h.recordsWritten _ _ hfinish]

omit [DecidableEq K] in
theorem finalise_alike (opts : PipelineOptions) (f : F) {s t : PipelineState E K P σ τ} (hst : SameBut T s t) :
    Alike T (finalise es opts f s) (finalise es opts f t) := by
  have hclose : ∀ {u v : PipelineState E K P σ τ}, SameBut T u v → SameBut T (close u) (close v) := by
    rintro u v ⟨y, rfl, hy⟩
    unfold close
    dsimp only
    split
    · exact ⟨y, rfl, hy⟩
    · exact ⟨y, rfl, hy⟩
  obtain ⟨x, rfl, hx⟩ := hst
  unfold finalise
  dsimp only
  split
  · exact ⟨rfl, hclose ⟨x, rfl, hx⟩⟩
  · obtain ⟨hr, hd⟩ := h.flush f s.store x hx
    rcases hs : es.flush f s.store with ⟨r, u⟩
    rcases ht : es.flush f x with ⟨r', u'⟩
    rw [hs, ht] at hr hd
    dsimp only at hr hd
    subst hr
    rcases r with exn | ⟨⟩
    · dsimp only
      split
      · exact ⟨rfl, hclose ⟨u', rfl, hd⟩⟩
      · exact ⟨rfl, hclose ⟨u', rfl, hd⟩⟩
    · refine ⟨rfl, hclose ⟨u', ?_, hd⟩⟩
      dsimp only
      rw [h.recordsWritten _ _ hd, h.filesWritten _ _ hd]

/-- Runs on stores that answer alike end alike. -/
theorem run_alike (st : Stages R E K P τ) (opts : PipelineOptions) (threshold : ℚ) (input : Run R F τ)
    {s t : PipelineState E K P σ τ} (hst : SameBut T s t) :
    Alike T (run st es opts threshold input s) (run st es opts threshold input t) := by
  have hexecute : (execute st es opts threshold input s).1 = (execute st es opts threshold input t).1 ∧
      SameBut T (execute st es opts threshold input s).2.1 (execute st es opts threshold input t).2.1 := by
    unfold execute
    cases input.prepareRaises with
    | some exn => exact ⟨rfl, hst⟩
    | none =>
      obtain ⟨hr, hl⟩ := readLoop_alike h st opts threshold input.sourceRaises input.records hst
      dsimp only
      rcases hs : readLoop st es opts threshold input.sourceRaises s input.records with ⟨r, u, seen⟩
      rcases ht : readLoop st es opts threshold input.sourceRaises t input.records with ⟨r', u', seen'⟩
      rw [hs, ht] at hr hl
      dsimp only at hr hl
      subst hr
      cases r with
      | error exn => exact ⟨rfl, hl⟩
      | ok ending =>
        obtain ⟨hc, hd⟩ := complete_alike h opts input.lastBatch hl
        exact ⟨congrArg (Except.map _) hc, hd⟩
  obtain ⟨hr, he⟩ := hexecute
  unfold run
  rcases hs : execute st es opts threshold input s with ⟨r, u, seen⟩
  rcases ht : execute st es opts threshold input t with ⟨r', u', seen'⟩
  rw [hs, ht] at hr he
  dsimp only at hr he
  subst hr
  have hfinal : ∀ {v w : PipelineState E K P σ τ}, SameBut T v w →
      Alike T ((finalise es opts input.flush v).1.map fun _ => (finalise es opts input.flush v).2.result,
        (finalise es opts input.flush v).2) ((finalise es opts input.flush w).1.map fun _ =>
          (finalise es opts input.flush w).2.result, (finalise es opts input.flush w).2) := by
    intro v w hvw
    obtain ⟨hf, y, hy, hd⟩ := finalise_alike h opts input.flush hvw
    refine ⟨?_, y, hy, hd⟩
    dsimp only
    rw [hf, hy]
  cases r with
  | error exn =>
    obtain ⟨y, rfl, hy⟩ := he
    exact hfinal ⟨y, rfl, hy⟩
  | ok ending => exact hfinal he

end LogPipeline

end LogAnalytics
