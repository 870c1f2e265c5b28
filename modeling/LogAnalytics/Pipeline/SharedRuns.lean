import LogAnalytics.Pipeline.Handed
import LogAnalytics.Pipeline.RunMany
import LogAnalytics.Storage.Shared
/-!
# Runs that share a store

A `LogPipeline` constructed with a store gives it to every run. A result takes its
`records_written` and `outputs` from the counters of the store, and these count all runs: a
result is about its own run while nobody wrote before, and while its `write` returns.
-/

namespace LogAnalytics

/-- `isinstance(exc, LogAnalyticsError)` -/
def Exn.isLogAnalyticsError (e : Exn) : Bool :=
  e.isPipelineError || match e.cls with
    | .pathTraversalError => true
    | .other name => name ∈ ["LogAnalyticsError", "ConfigurationError", "PluginNotFoundError", "SecurityError",
        "AuthenticationError", "AuthorizationError", "RateLimitExceededError", "QueryError", "SearchSyntaxError",
        "JobError", "RetryExhaustedError"]
    | _ => false

/-- One call of `LogPipeline.run`. -/
structure RunCall (R E K P F τ : Type) where
  runId : String
  /-- What `build_source` raises. -/
  openRaises : Option Exn := none
  stages : Stages R E K P τ
  options : PipelineOptions := {}
  threshold : ℚ
  context : ParseContext := {}
  dlq : DeadLetterQueue P τ := {}
  seen : SeenKeys K
  input : LogPipeline.Run R F τ

variable {R E K P F σ ω τ : Type}

namespace LogPipeline

/-- `records_written` and `outputs` of a run that handed over `events`: how many they are, and the
files they go to. -/
def Tells (shared : SharedStore E F σ ω) (runId : String) (events : List E) (said : Nat × List String) : Prop :=
  said.1 = events.length ∧ ∀ path, path ∈ said.2 ↔ ∃ e ∈ events, shared.file runId e = path

section
variable [DecidableEq K]

/-- `run` of a pipeline with a store of its own. -/
def runShared (shared : SharedStore E F σ ω) (c : RunCall R E K P F τ) (s : σ) : Except Exn PipelineResult × σ :=
  match c.openRaises with
  | some exn =>
    if exn.isLogAnalyticsError ∨ exn.isOSError then
      (.ok (({} : PipelineResult).fail (exn.typeName ++ ": " ++ exn.msg)), s)
    else (.error exn, s)
  | none =>
    let (r, t) := run c.stages (shared.write c.runId) c.options c.threshold c.input
      (start c.context c.dlq c.seen (shared.opens s))
    (r, shared.leaves t.store)

/-- `_execute` of a call. -/
def executeShared (shared : SharedStore E F σ ω) (c : RunCall R E K P F τ) (s : σ) :
    Except Exn Ending × PipelineState E K P ω τ × List Observed :=
  execute c.stages (shared.write c.runId) c.options c.threshold c.input (start c.context c.dlq c.seen (shared.opens s))

/-- The same, with notes. -/
def executeNoting (shared : SharedStore E F σ ω) (c : RunCall R E K P F τ) (s : σ) :
    Except Exn Ending × PipelineState E K P (ω × List E) τ × List Observed :=
  execute c.stages (shared.write c.runId).noting c.options c.threshold c.input
    (start c.context c.dlq c.seen (shared.opens s, []))

/-- The events the call hands to the store. -/
def handed (shared : SharedStore E F σ ω) (c : RunCall R E K P F τ) (s : σ) : List E :=
  match c.openRaises with
  | some _ => []
  | none =>
    let (_, t, _) := executeNoting shared c s
    t.store.2 ++ t.batch

/-- A returned result is about its own run. -/
def Reported (shared : SharedStore E F σ ω) (c : RunCall R E K P F τ) (s : σ) : Prop :=
  ∀ result, (runShared shared c s).1 = .ok result →
    Tells shared c.runId (handed shared c s) (result.recordsWritten, result.outputs)

/-- The `write` of the call returns. -/
def Returns (shared : SharedStore E F σ ω) (c : RunCall R E K P F τ) (s : σ) : Prop :=
  ∃ ending, (executeShared shared c s).1 = .ok ending

/-- Its `flush` returns. -/
def Publishes (shared : SharedStore E F σ ω) (c : RunCall R E K P F τ) (s : σ) : Prop :=
  ((shared.write c.runId).flush c.input.flush (executeShared shared c s).2.1.store).1 = .ok ()

/-- The call gets to read the counters of the store. -/
def ReadsCounters (shared : SharedStore E F σ ω) (c : RunCall R E K P F τ) (s : σ) : Prop :=
  c.openRaises = none ∧ c.options.dryRun = false ∧ (Returns shared c s ∨ Publishes shared c s)

/-- Neither the runs before nor a `write` cut short come between the call and its counters. -/
structure Undisturbed (shared : SharedStore E F σ ω) (c : RunCall R E K P F τ) (s : σ) : Prop where
  whole : handed shared c s = [] ∨ Returns shared c s
  fresh : ReadsCounters shared c s → shared.recordsWritten s = 0 ∧ shared.filesWritten s = []

/-- What holds at each call of a sequence of runs on one store. -/
def Throughout (shared : SharedStore E F σ ω) (I : RunCall R E K P F τ → σ → Prop) : List (RunCall R E K P F τ) → σ → Prop
  | [], _ => True
  | c :: calls, s => I c s ∧ Throughout shared I calls (runShared shared c s).2

end

/-! ## What the notes say of the store -/

/-- The notes of a `write` so far, against the store it started on. -/
structure Noted (shared : SharedStore E F σ ω) (runId : String) (s : σ) (w : ω × List E) : Prop where
  idle : w.2 = [] → w.1 = shared.opens s
  recordsWritten : (shared.write runId).recordsWritten w.1 = shared.recordsWritten s + w.2.length
  touched : ∀ path, path ∈ (shared.write runId).touched w.1 ↔ ∃ e ∈ w.2, shared.file runId e = path
  filesWritten : (shared.write runId).filesWritten w.1 = shared.filesWritten s

variable {shared : SharedStore E F σ ω} {runId : String} {s : σ}

theorem noted_opens (shared : SharedStore E F σ ω) (runId : String) (s : σ) : Noted shared runId s (shared.opens s, []) where
  idle _ := rfl
  recordsWritten := shared.opens_recordsWritten runId s
  touched path := by simp [shared.opens_touched]
  filesWritten := shared.opens_filesWritten runId s

/-- A batch is noted whatever becomes of it; written, it is counted. -/
theorem Noted.writeBatch {w : ω × List E} (h : Noted shared runId s w) (f : F) (batch : List E) (hbatch : batch ≠ []) :
    let p := (shared.write runId).noting.writeBatch f w batch
    p.2.2 ≠ [] ∧ (p.1 = .ok () → Noted shared runId s p.2) := by
  have hsome : w.2 ++ batch ≠ [] := by simp [hbatch]
  refine ⟨hsome, fun hok => ⟨fun hnil => absurd hnil hsome, ?_, fun path => ?_, ?_⟩⟩
  · change (shared.write runId).recordsWritten ((shared.write runId).writeBatch f w.1 batch).2 = _ + (w.2 ++ batch).length
    rw [(shared.write runId).writeBatch_counts f w.1 batch hok, h.recordsWritten, List.length_append, Nat.add_assoc]
  · change path ∈ (shared.write runId).touched ((shared.write runId).writeBatch f w.1 batch).2 ↔ ∃ e ∈ w.2 ++ batch, _
    rw [shared.writeBatch_touched runId f w.1 batch hok, h.touched]
    simp only [List.mem_append, or_and_right, exists_or]
  · exact (shared.writeBatch_filesWritten runId f w.1 batch).trans h.filesWritten

theorem Noted.push {w : ω × List E} (h : Noted shared runId s w) (f : F) (batch : List E) (event : E) :
    let p := (shared.write runId).noting.push f w batch event
    (p.2.1.2 = [] → p.2.1.1 = shared.opens s) ∧ (p.1 = .ok () → Noted shared runId s p.2.1) := by
  dsimp only
  unfold EventStore.push
  dsimp only
  split
  · obtain ⟨hsome, hok⟩ := h.writeBatch f (batch ++ [event]) (by simp)
    exact ⟨fun hnil => absurd hnil hsome, hok⟩
  · exact ⟨h.idle, fun _ => h⟩

theorem Noted.drain {w : ω × List E} (h : Noted shared runId s w) (f : F) (batch : List E) :
    let p := (shared.write runId).noting.drain f w batch
    (p.2.2 = [] → p.2.1 = shared.opens s) ∧ (p.1 = .ok () → Noted shared runId s p.2) := by
  dsimp only
  unfold EventStore.drain
  split
  · exact ⟨h.idle, fun _ => h⟩
  · next hbatch =>
    obtain ⟨hsome, hok⟩ := h.writeBatch f batch (by simpa using hbatch)
    exact ⟨fun hnil => absurd hnil hsome, hok⟩

section
variable [DecidableEq K] {c : RunCall R E K P F τ}

theorem executeShared_eq (shared : SharedStore E F σ ω) (c : RunCall R E K P F τ) (s : σ) :
    executeShared shared c s = Prod.map id (Prod.map forget id) (executeNoting shared c s) :=
  execute_forget (shared.write c.runId) c.stages c.options c.threshold c.input
    (start c.context c.dlq c.seen (shared.opens s, []))

/-- A dry run hands over nothing and reports nothing. -/
theorem executeNoting_dry (shared : SharedStore E F σ ω) (s : σ) (hdry : c.options.dryRun = true) :
    let t := (executeNoting shared c s).2.1
    reported t.toParseState = (0, []) ∧ t.store = (shared.opens s, []) ∧ t.batch = [] := by
  let idle : ω × List E → List E → Prop := fun w batch => w = (shared.opens s, []) ∧ batch = []
  obtain ⟨hr, hloop, -⟩ := @readLoop_pushes _ _ _ _ _ _ _ _ c.stages (shared.write c.runId).noting c.options c.threshold
    c.input.sourceRaises idle idle (fun _ _ h => h) (fun _ _ _ _ hwet => by rw [hdry] at hwet; cases hwet) c.input.records
    (start c.context c.dlq c.seen (shared.opens s, [])) ⟨rfl, rfl⟩
  dsimp only
  unfold executeNoting
  rcases execute_cases c.stages (shared.write c.runId).noting c.options c.threshold c.input
    (start c.context c.dlq c.seen (shared.opens s, [])) with ⟨_, -, ht⟩ | ⟨_, -, ht⟩ | ⟨_, -, -, ht⟩
  · rw [ht]
    exact ⟨rfl, rfl, rfl⟩
  · rw [ht]
    exact ⟨hr, hloop⟩
  · obtain ⟨-, hstore, hbatch, hreported⟩ := complete_dry (shared.write c.runId).noting c.input.lastBatch
      (readLoop c.stages (shared.write c.runId).noting c.options c.threshold c.input.sourceRaises
        (start c.context c.dlq c.seen (shared.opens s, [])) c.input.records).2.1 hdry
    rw [ht, hstore, hbatch, hreported]
    exact ⟨hr, hloop⟩

/-- A call that is no dry run. When its `write` raises, the result says nothing yet, and a store
that was handed nothing is as it was; when it returns, the notes are those of all it handed over. -/
theorem executeNoting_wet (shared : SharedStore E F σ ω) (s : σ) (hwet : c.options.dryRun = false) :
    let p := executeNoting shared c s
    ((∃ exn, p.1 = .error exn) → reported p.2.1.toParseState = (0, []) ∧
      (p.2.1.store.2 = [] → p.2.1.store.1 = shared.opens s)) ∧
    ((∃ ending, p.1 = .ok ending) → ∃ w, Noted shared c.runId s w ∧
      p.2.1.store = ((shared.write c.runId).finish w.1, w.2) ∧ p.2.1.batch = [] ∧
      reported p.2.1.toParseState = ((shared.write c.runId).recordsWritten ((shared.write c.runId).finish w.1),
        (shared.write c.runId).touched ((shared.write c.runId).finish w.1))) := by
  let idle : ω × List E → List E → Prop := fun w _ => w.2 = [] → w.1 = shared.opens s
  let noted : ω × List E → List E → Prop := fun w _ => Noted shared c.runId s w
  obtain ⟨hr, hidle, hloop⟩ := @readLoop_pushes _ _ _ _ _ _ _ _ c.stages (shared.write c.runId).noting c.options c.threshold
    c.input.sourceRaises noted idle (fun _ _ h => h.idle) (fun f _ batch event _ h => h.push f batch event) c.input.records
    (start c.context c.dlq c.seen (shared.opens s, [])) (noted_opens shared c.runId s)
  dsimp only
  unfold executeNoting
  rcases execute_cases c.stages (shared.write c.runId).noting c.options c.threshold c.input
    (start c.context c.dlq c.seen (shared.opens s, [])) with ⟨exn, hp, ht⟩ | ⟨exn, hp, ht⟩ | ⟨ending, hend, hp, ht⟩
  · rw [hp, ht]
    exact ⟨fun _ => ⟨rfl, fun _ => rfl⟩, fun ⟨_, h⟩ => by cases h⟩
  · rw [hp, ht]
    exact ⟨fun _ => ⟨hr, hidle⟩, fun ⟨_, h⟩ => by cases h⟩
  · rw [hp, ht]
    have hnoted := hloop ⟨ending, hend⟩
    generalize (readLoop c.stages (shared.write c.runId).noting c.options c.threshold c.input.sourceRaises
      (start c.context c.dlq c.seen (shared.opens s, [])) c.input.records).2.1 = q at hr hnoted
    obtain ⟨hdrained, hwritten⟩ := hnoted.drain c.input.lastBatch q.batch
    rcases hd : (shared.write c.runId).noting.drain c.input.lastBatch q.store q.batch with ⟨exn | ⟨⟩, w⟩
    · rw [hd] at hdrained
      rw [complete_raised _ _ _ hwet hd]
      exact ⟨fun _ => ⟨hr, hdrained⟩, fun ⟨_, h⟩ => by cases h⟩
    · rw [hd] at hwritten
      obtain ⟨hok, hstore, hbatch, hreported⟩ := complete_written _ _ _ hwet hd
      rw [hok]
      exact ⟨fun ⟨_, h⟩ => (by cases h), fun _ => ⟨w, hwritten rfl, hstore, hbatch, hreported⟩⟩

/-- What a returned result says, `t` being where `_execute` left the run. -/
theorem runShared_result (hopen : c.openRaises = none) {result : PipelineResult}
    (h : (runShared shared c s).1 = .ok result) :
    let t := (executeShared shared c s).2.1
    let flushed := (shared.write c.runId).flush c.input.flush t.store
    (result.recordsWritten, result.outputs) =
      if c.options.dryRun = false ∧ flushed.1 = .ok () then
        ((shared.write c.runId).recordsWritten flushed.2, (shared.write c.runId).filesWritten flushed.2)
      else reported t.toParseState := by
  unfold runShared at h
  rw [hopen] at h
  exact run_reported _ _ h

theorem tells_nothing (shared : SharedStore E F σ ω) (runId : String) : Tells shared runId [] (0, []) :=
  ⟨rfl, fun path => by simp⟩

/-- What the counters tell once a call is written and published: what they told before, and the call. -/
theorem Noted.published {w : ω × List E} (h : Noted shared runId s w) (f : F) :
    let flushed := ((shared.write runId).flush f ((shared.write runId).finish w.1)).2
    (shared.write runId).recordsWritten flushed = shared.recordsWritten s + w.2.length ∧
      ∀ path, path ∈ (shared.write runId).filesWritten flushed ↔
        path ∈ shared.filesWritten s ∨ ∃ e ∈ w.2, shared.file runId e = path := by
  dsimp only
  refine ⟨?_, fun path => ?_⟩
  · rw [(shared.write runId).flush_counts, (shared.write runId).finish_counts, h.recordsWritten]
  · rw [shared.flush_filesWritten, shared.finish_filesWritten, h.filesWritten, h.touched]

theorem Noted.unpublished {w : ω × List E} (h : Noted shared runId s w) :
    let finished := (shared.write runId).finish w.1
    (shared.write runId).recordsWritten finished = shared.recordsWritten s + w.2.length ∧
      ∀ path, path ∈ (shared.write runId).touched finished ↔ ∃ e ∈ w.2, shared.file runId e = path := by
  dsimp only
  refine ⟨?_, fun path => ?_⟩
  · rw [(shared.write runId).finish_counts, h.recordsWritten]
  · rw [shared.finish_touched, h.touched]

theorem handed_eq (hopen : c.openRaises = none) :
    handed shared c s = (executeNoting shared c s).2.1.store.2 ++ (executeNoting shared c s).2.1.batch := by
  unfold handed
  rw [hopen]

theorem executeShared_ending (shared : SharedStore E F σ ω) (c : RunCall R E K P F τ) (s : σ) :
    (executeShared shared c s).1 = (executeNoting shared c s).1 := by
  rw [executeShared_eq]
  rfl

theorem executeShared_state (shared : SharedStore E F σ ω) (c : RunCall R E K P F τ) (s : σ) :
    (executeShared shared c s).2.1 = forget (executeNoting shared c s).2.1 := by
  rw [executeShared_eq]
  rfl

/-- A call that hands over its events on a fresh store, or none, is reported as it was. -/
theorem reported_of_undisturbed (h : Undisturbed shared c s) : Reported shared c s := by
  intro result hresult
  obtain ⟨hwhole, hfresh⟩ := h
  cases hopen : c.openRaises with
  | some exn =>
    have hnone : handed shared c s = [] := by
      unfold handed
      rw [hopen]
    unfold runShared at hresult
    rw [hopen] at hresult
    dsimp only at hresult
    split at hresult
    · cases hresult
      rw [hnone]
      exact tells_nothing shared c.runId
    · cases hresult
  | none =>
    have hends := executeShared_ending shared c s
    have hstate := executeShared_state shared c s
    have hhanded : handed shared c s = _ := handed_eq hopen
    rw [runShared_result hopen hresult, hstate]
    cases hdry : c.options.dryRun with
    | true =>
      obtain ⟨hr, hstore, hbatch⟩ := executeNoting_dry shared s hdry
      rw [if_neg (by simp), hhanded, hstore, hbatch]
      exact hr ▸ tells_nothing shared c.runId
    | false =>
      obtain ⟨hraised, hreturned⟩ := executeNoting_wet (c := c) shared s hdry
      rcases hp : (executeNoting shared c s).1 with exn | ending
      · obtain ⟨hr, hidle⟩ := hraised ⟨exn, hp⟩
        have hnone : handed shared c s = [] := hwhole.resolve_right fun ⟨_, h⟩ => by
          rw [hends, hp] at h
          cases h
        rw [hnone]
        rw [hhanded, List.append_eq_nil_iff] at hnone
        have hstore : (forget (executeNoting shared c s).2.1).store = shared.opens s := hidle hnone.1
        split
        · next hflush =>
          -- the files are published all the same, and nothing was written before
          rw [hstore] at hflush
          obtain ⟨hcount, hfiles⟩ := hfresh ⟨hopen, hdry, .inr (by
            unfold Publishes
            rw [hstate, hstore]
            exact hflush.2)⟩
          rw [hstore, (shared.write c.runId).flush_counts, shared.flush_filesWritten, shared.opens_recordsWritten,
            shared.opens_filesWritten, hcount, hfiles]
          exact tells_nothing shared c.runId
        · exact hr ▸ tells_nothing shared c.runId
      · obtain ⟨w, hw, hstore, hbatch, hr⟩ := hreturned ⟨ending, hp⟩
        obtain ⟨hcount, hfiles⟩ := hfresh ⟨hopen, hdry, .inl ⟨ending, hends.trans hp⟩⟩
        rw [hhanded, hstore, hbatch, List.append_nil]
        have hfinished : (forget (executeNoting shared c s).2.1).store = (shared.write c.runId).finish w.1 :=
          congrArg Prod.fst hstore
        split
        · rw [hfinished]
          have hpublished := hw.published c.input.flush
          rw [hcount, hfiles, Nat.zero_add] at hpublished
          exact ⟨hpublished.1, fun path => by simp [hpublished.2]⟩
        · have hunpublished := hw.unpublished
          rw [hcount, Nat.zero_add] at hunpublished
          exact hr ▸ hunpublished

/-- A call whose `write` and `flush` return is reported as it was only if nothing had been written
before: as many records as it handed over, and no file it did not write to. -/
theorem reported_iff_of_published (hopen : c.openRaises = none) (hwet : c.options.dryRun = false)
    (hreturns : Returns shared c s) (hpublishes : Publishes shared c s) :
    Reported shared c s ↔ shared.recordsWritten s = 0 ∧
      ∀ path ∈ shared.filesWritten s, ∃ e ∈ handed shared c s, shared.file c.runId e = path := by
  obtain ⟨ending, hending⟩ := hreturns
  rw [executeShared_ending] at hending
  obtain ⟨w, hw, hstore, hbatch, -⟩ := (executeNoting_wet (c := c) shared s hwet).2 ⟨ending, hending⟩
  obtain ⟨hcount, hfiles⟩ := hw.published c.input.flush
  have hhanded : handed shared c s = w.2 := by rw [handed_eq hopen, hstore, hbatch, List.append_nil]
  have hfinished : (executeShared shared c s).2.1.store = (shared.write c.runId).finish w.1 := by
    rw [executeShared_state]
    exact congrArg Prod.fst hstore
  obtain ⟨result, hresult⟩ : ∃ result, (runShared shared c s).1 = .ok result := by
    unfold runShared
    rw [hopen]
    exact run_returns _ _ hwet hpublishes
  have hsaid := runShared_result hopen hresult
  unfold Publishes at hpublishes
  dsimp only at hsaid
  rw [if_pos ⟨hwet, hpublishes⟩, hfinished] at hsaid
  unfold Reported Tells
  rw [hhanded]
  constructor
  · intro h
    obtain ⟨hn, hpaths⟩ := h result hresult
    rw [hsaid] at hn hpaths
    exact ⟨by omega, fun path hpath => (hpaths path).1 ((hfiles path).2 (.inl hpath))⟩
  · rintro ⟨hzero, hold⟩ result' hresult'
    obtain rfl : result = result' := by rw [hresult] at hresult'; cases hresult'; rfl
    rw [hsaid]
    exact ⟨by omega, fun path => (hfiles path).trans ⟨fun h => h.elim (hold path) id, .inr⟩⟩

/-- The counters go on from run to run: a call whose `write` is not cut short adds what it handed over. -/
theorem counters_after (h : handed shared c s = [] ∨ Returns shared c s) :
    shared.recordsWritten (runShared shared c s).2 = shared.recordsWritten s + (handed shared c s).length ∧
      ∀ path, path ∈ shared.filesWritten (runShared shared c s).2 ↔
        path ∈ shared.filesWritten s ∨ ∃ e ∈ handed shared c s, shared.file c.runId e = path := by
  cases hopen : c.openRaises with
  | some exn =>
    have hnone : handed shared c s = [] := by
      unfold handed
      rw [hopen]
    have hsame : (runShared shared c s).2 = s := by
      unfold runShared
      rw [hopen]
      dsimp only
      split <;> rfl
    rw [hnone, hsame]
    simp
  | none =>
    have hhanded : handed shared c s = _ := handed_eq hopen
    have hrun : (runShared shared c s).2 = shared.leaves (run c.stages (shared.write c.runId) c.options c.threshold c.input
        (start c.context c.dlq c.seen (shared.opens s))).2.store := by
      unfold runShared
      rw [hopen]
    have hstate : (execute c.stages (shared.write c.runId) c.options c.threshold c.input
        (start c.context c.dlq c.seen (shared.opens s))).2.1 = _ := executeShared_state shared c s
    rw [hrun]
    cases hdry : c.options.dryRun with
    | true =>
      obtain ⟨-, hstore, hbatch⟩ := executeNoting_dry shared s hdry
      have hopened : (forget (executeNoting shared c s).2.1).store = shared.opens s := congrArg Prod.fst hstore
      rw [run_dry _ _ _ _ _ hdry, hstate, hopened, shared.leaves_opens, hhanded, hstore, hbatch]
      simp
    | false =>
      rw [run_store _ _ _ _ _ hdry, hstate, shared.leaves_recordsWritten c.runId, shared.leaves_filesWritten c.runId]
      obtain ⟨hraised, hreturned⟩ := executeNoting_wet (c := c) shared s hdry
      rcases hp : (executeNoting shared c s).1 with exn | ending
      · have hnone : handed shared c s = [] := h.resolve_right fun ⟨_, hok⟩ => by
          rw [executeShared_ending, hp] at hok
          cases hok
        have hidle := (hraised ⟨exn, hp⟩).2
        rw [hhanded, List.append_eq_nil_iff] at hnone
        have hopened : (forget (executeNoting shared c s).2.1).store = shared.opens s := hidle hnone.1
        rw [hopened, (shared.write c.runId).flush_counts, shared.flush_filesWritten, shared.opens_recordsWritten,
          shared.opens_filesWritten, hhanded, hnone.1, hnone.2]
        simp
      · obtain ⟨w, hw, hstore, hbatch, -⟩ := hreturned ⟨ending, hp⟩
        have hfinished : (forget (executeNoting shared c s).2.1).store = (shared.write c.runId).finish w.1 :=
          congrArg Prod.fst hstore
        rw [hfinished, hhanded, hstore, hbatch, List.append_nil]
        exact hw.published c.input.flush

/-- The store after a sequence of runs, and how many events they handed over. -/
def afterCalls (shared : SharedStore E F σ ω) (calls : List (RunCall R E K P F τ)) (s : σ) : σ :=
  calls.foldl (fun s c => (runShared shared c s).2) s

def handedByAll (shared : SharedStore E F σ ω) : List (RunCall R E K P F τ) → σ → Nat
  | [], _ => 0
  | c :: calls, s => (handed shared c s).length + handedByAll shared calls (runShared shared c s).2

/-- So `records_written` is the total of all runs. -/
theorem recordsWritten_afterCalls (shared : SharedStore E F σ ω) (calls : List (RunCall R E K P F τ)) : ∀ s : σ,
    Throughout shared (fun c s => handed shared c s = [] ∨ Returns shared c s) calls s →
    shared.recordsWritten (afterCalls shared calls s) = shared.recordsWritten s + handedByAll shared calls s := by
  induction calls with
  | nil => exact fun _ _ => rfl
  | cons c calls ih =>
    rintro s ⟨hhead, htail⟩
    have hlater := ih _ htail
    rw [(counters_after hhead).1] at hlater
    rw [handedByAll, ← Nat.add_assoc]
    exact hlater

/-- Runs none of which comes between another and its counters are all reported as they were. -/
theorem shared_runs_reported (shared : SharedStore E F σ ω) (calls : List (RunCall R E K P F τ)) :
    ∀ s : σ, Throughout shared (Undisturbed shared) calls s → Throughout shared (Reported shared) calls s := by
  induction calls with
  | nil => exact fun _ _ => trivial
  | cons c calls ih =>
    rintro s ⟨hhead, htail⟩
    exact ⟨reported_of_undisturbed hhead, ih _ htail⟩

end

/-- A JSONL store, all events in one partition. -/
def lineShared : SharedStore Text TextFaults (TextStore Unit Text) (TextWrite Unit Text) :=
  TextStore.shared { unicode := asciiUnicode, format := .jsonl, partition := fun _ => () } (·.2)

/-- A run over lines. -/
def lineCall (runId : String) (lines : List String) : RunCall Unit Text Text Unit TextFaults Unit where
  runId := runId
  stages := lineStages
  threshold := 1 / 2
  seen := SeenKeys.empty 10 SeenKeys.one_le_ten
  input := lineRun lines

def newStore : TextStore Unit Text := { files := ∅ }

/-- A dry run, a source that cannot be opened, then two good lines. -/
theorem shared_runs_reported_lines :
    let rehearsal := { lineCall "first" ["a"] with options := { dryRun := true } }
    let missing := { lineCall "second" ["a"] with openRaises := some ⟨.ingestionError, "no such file"⟩ }
    Throughout lineShared (Reported lineShared) [rehearsal, missing, lineCall "third" ["a", "b"]] newStore :=
  shared_runs_reported lineShared _ newStore
    ⟨⟨.inl rfl, fun h => by cases h.2.1⟩, ⟨.inl rfl, fun h => by cases h.1⟩,
      ⟨.inr ⟨.exhausted, rfl⟩, fun _ => ⟨rfl, rfl⟩⟩, trivial⟩

/-- The second of two runs of one line each reports both lines and both files. -/
theorem second_run_reports_both :
    ¬ Throughout lineShared (Reported lineShared) [lineCall "first" ["a"], lineCall "second" ["b"]] newStore := by
  rintro ⟨-, hsecond, -⟩
  have hcount := (hsecond _ rfl).1
  revert hcount
  decide

end LogPipeline

end LogAnalytics
