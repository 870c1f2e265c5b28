import Mathlib.Algebra.Order.Field.Rat
import Mathlib.Tactic.FieldSimp
import Mathlib.Tactic.Positivity
import Mathlib.Tactic.Ring
import LogAnalytics.Pipeline.Conservation
/-!
# The error-rate checks

A check after every 10 000 lines compares `rejection_rate` with the threshold. The rate counts
a record that was parsed and then rejected twice in its denominator, so it is the fraction of
records rejected exactly as long as there is no such record.
-/

namespace LogAnalytics.LogPipeline

variable {R E K P F σ τ : Type}

/-! ## What a check sees -/

/-- The counters `rejection_rate` reads, from the outcomes. -/
def rateOf (seen : List Observed) : ℚ :=
  let total := seen.countP (·.outcome.isParsed) + seen.countP (·.outcome.isRejected)
  if total = 0 then 0 else (seen.countP (·.outcome.isRejected) : ℚ) / total

/-- The fraction of the records read so far that were rejected, at any stage. -/
def rejectedFraction (seen : List Observed) : ℚ := (seen.countP (·.outcome.isRejected) : ℚ) / seen.length

/-- The check that is due after the records seen. -/
def dueCheck (threshold : ℚ) (seen : List Observed) : Option Checkpoint :=
  if 10000 ∣ seen.length then some ⟨rateOf seen, decide (threshold < rateOf seen)⟩ else none

theorem Counted.rate {s : PipelineState E K P σ τ} {seen : List Observed} (h : Counted s seen) :
    s.result.rejectionRate = rateOf seen := by
  rw [PipelineResult.rejectionRate, rateOf, h.parsed, h.rejected]

theorem rateOf_eq (seen : List Observed) :
    rateOf seen = (seen.countP (·.outcome.isRejected) : ℚ) / (seen.length + seen.countP (·.outcome.isLate) : ℕ) := by
  obtain ⟨h1, -, h3⟩ := countP_outcomes seen
  have ht : seen.countP (·.outcome.isParsed) + seen.countP (·.outcome.isRejected) =
      seen.length + seen.countP (·.outcome.isLate) := by omega
  rw [rateOf, ht]
  split
  · next h0 => rw [h0, Nat.cast_zero, div_zero]
  · rfl

theorem countP_isLate_le (seen : List Observed) :
    seen.countP (·.outcome.isLate) ≤ seen.countP (·.outcome.isRejected) := by
  apply List.countP_mono_left
  rintro ⟨o, c⟩ _ h
  cases o <;> simp_all [Outcome.isLate, Outcome.isRejected]

/-- The rate is the fraction rejected just when nothing was rejected late. -/
theorem rateOf_eq_iff {seen : List Observed} (hne : seen ≠ []) :
    rateOf seen = rejectedFraction seen ↔ seen.countP (·.outcome.isLate) = 0 := by
  rw [rateOf_eq, rejectedFraction]
  have hlen : 0 < seen.length := List.length_pos_iff.2 hne
  have hle := countP_isLate_le seen
  generalize seen.countP (·.outcome.isLate) = late at *
  generalize seen.countP (·.outcome.isRejected) = rejected at *
  generalize seen.length = n at *
  constructor
  · intro h
    rw [div_eq_div_iff (by positivity) (by positivity)] at h
    have h' : rejected * n = rejected * (n + late) := by exact_mod_cast h
    rcases Nat.eq_zero_or_pos rejected with h0 | hpos
    · omega
    · have := Nat.eq_of_mul_eq_mul_left hpos h'
      omega
  · rintro rfl
    rw [Nat.add_zero]

/-- What the claim of a check is worth: its rate is the fraction rejected, and it aborts just
when that exceeds the threshold. -/
theorem check_accurate_iff {threshold : ℚ} {seen : List Observed} {c : Checkpoint} (hne : seen ≠ [])
    (hc : dueCheck threshold seen = some c) :
    (c.rate = rejectedFraction seen ∧ (c.aborts = true ↔ threshold < rejectedFraction seen)) ↔
      seen.countP (·.outcome.isLate) = 0 := by
  rw [← rateOf_eq_iff hne]
  unfold dueCheck at hc
  split at hc
  · cases hc
    simp only [decide_eq_true_eq]
    refine ⟨And.left, fun h => ⟨h, ?_⟩⟩
    rw [h]
  · cases hc

/-! ## Records rejected late -/

/-- The record parses, and is then rejected by transformation or validation. -/
def rejectedLate (st : Stages R E K P τ) (env : RecordEnv F τ) (record : RawRecord R) (context : ParseContext) : Bool :=
  match parsePayload st env.now record context with
  | .error _ => false
  | .ok event =>
    match st.transform event with
    | .error _ => true
    | .ok event =>
      match st.validate env.now event with
      | .error _ => false
      | .ok outcome => !outcome.valid

/-- Which of the records are rejected late, each in the context it is parsed in. -/
def lateRecords (st : Stages R E K P τ) : ParseContext → List (RawRecord R × RecordEnv F τ) → List Bool
  | _, [] => []
  | context, (record, env) :: rest =>
    rejectedLate st env record (context.enter record) :: lateRecords st (context.enter record) rest

theorem lateRecords_append (st : Stages R E K P τ) (record : RawRecord R) (env : RecordEnv F τ)
    (records : List (RawRecord R × RecordEnv F τ)) : ∀ context : ParseContext,
      lateRecords st context (records ++ [(record, env)]) =
        lateRecords st context records ++ [rejectedLate st env record ((contextAfter context records).enter record)] := by
  induction records with
  | nil => intro context; rfl
  | cons x rest ih => intro context; exact congrArg _ (ih _)

theorem lateRecords_take (st : Stages R E K P τ) (records : List (RawRecord R × RecordEnv F τ)) :
    ∀ (context : ParseContext) (k : Nat), lateRecords st context (records.take k) = (lateRecords st context records).take k := by
  induction records with
  | nil => intro context k; simp [lateRecords]
  | cons x rest ih =>
    intro context k
    cases k with
    | zero => rfl
    | succ k => exact congrArg _ (ih _ k)

variable [DecidableEq K] {st : Stages R E K P τ} {store : EventStore E F σ} {dryRun : Bool} {env : RecordEnv F τ}
  {record : RawRecord R} {s t : PipelineState E K P σ τ} {o : Outcome}

theorem Passed.isLate (h : Passed st store dryRun env record s o t) :
    o.isLate = rejectedLate st env record (s.context.enter record) := by
  cases h <;> simp_all [rejectedLate, Outcome.isLate]

theorem Passed.context (h : Passed st store dryRun env record s o t) : t.context = s.context.enter record := by
  cases h <;> rfl

theorem Passed.checkedAt (h : Passed st store dryRun env record s o t) : t.checkedAt = s.checkedAt := by
  cases h <;> rfl

/-! ## Runs -/

/-- The checks of a run so far are those due, and the records rejected late are those of the input. -/
structure Checked (st : Stages R E K P τ) (threshold : ℚ) (context : ParseContext) (s : PipelineState E K P σ τ)
    (done : List (RawRecord R × RecordEnv F τ)) (seen : List Observed) : Prop extends Counted s seen where
  checkedAt : s.checkedAt = 10000 * (seen.length / 10000)
  context_eq : s.context = contextAfter context done
  late : seen.map (·.outcome.isLate) = lateRecords st context done
  checks : ∀ i ob, seen[i]? = some ob → ob.checkpoint = dueCheck threshold (seen.take (i + 1))

omit [DecidableEq K] in
/-- The check made after a record is the one due. -/
theorem check_due (threshold : ℚ) {seen : List Observed} (hc : Counted t seen) (hpos : 0 < seen.length)
    (ht : t.checkedAt = 10000 * ((seen.length - 1) / 10000)) :
    (check threshold t).1 = dueCheck threshold seen ∧ (check threshold t).2.checkedAt = 10000 * (seen.length / 10000) := by
  have hrate := hc.rate
  have hread := hc.read
  unfold check dueCheck
  by_cases hd : 10000 ∣ seen.length
  · have h1 : 10000 ≤ t.result.linesRead - t.checkedAt := by omega
    have h2 : 1000 ≤ t.result.linesRead := by omega
    rw [if_pos h1, if_pos hd]
    simp only [hrate, h2, true_and]
    omega
  · have h1 : ¬ 10000 ≤ t.result.linesRead - t.checkedAt := by omega
    rw [if_neg h1, if_neg hd]
    refine ⟨rfl, ?_⟩
    show t.checkedAt = _
    omega

theorem Checked.passed {threshold : ℚ} {context : ParseContext} {done : List (RawRecord R × RecordEnv F τ)}
    {seen : List Observed} (h : Checked st threshold context s done seen)
    (hp : Passed st store dryRun env record (countLine s) o t) :
    Checked st threshold context (check threshold t).2 (done ++ [(record, env)]) (seen ++ [⟨o, (check threshold t).1⟩]) := by
  have hcount : Counted t (seen ++ [⟨o, (check threshold t).1⟩]) := h.toCounted.passed hp _
  have hat : t.checkedAt = 10000 * (((seen ++ [(⟨o, (check threshold t).1⟩ : Observed)]).length - 1) / 10000) := by
    rw [hp.checkedAt, List.length_append, List.length_singleton, Nat.add_sub_cancel]
    exact h.checkedAt
  obtain ⟨hdue, hat'⟩ := check_due threshold hcount (by simp) hat
  refine ⟨hcount.check threshold, hat', ?_, ?_, ?_⟩
  · rw [check_eq, contextAfter, List.foldl_append]
    exact hp.context.trans (congrArg (fun c : ParseContext => c.enter record) h.context_eq)
  · rw [List.map_append, h.late, lateRecords_append, ← h.context_eq]
    exact congrArg (fun b => lateRecords st context done ++ [b]) hp.isLate
  · intro i ob hi
    rcases Nat.lt_or_ge i seen.length with hlt | hge
    · rw [List.getElem?_append_left hlt] at hi
      rw [List.take_append_of_le_length hlt]
      exact h.checks i ob hi
    · -- the record just processed
      have hlast : i = seen.length := by
        have := (List.getElem?_eq_some_iff.1 hi).1
        simp only [List.length_append, List.length_singleton] at this
        omega
      subst hlast
      rw [List.getElem?_concat_length, Option.some.injEq] at hi
      subst hi
      rw [List.take_of_length_le (by simp)]
      exact hdue

/-- Everything the trace of a run says about its checks. -/
theorem execute_checked (st : Stages R E K P τ) (store : EventStore E F σ) (opts : PipelineOptions) (threshold : ℚ)
    (input : Run R F τ) (context : ParseContext) (dlq : DeadLetterQueue P τ) (seen : SeenKeys K) (x : σ) :
    let trace := (execute st store opts threshold input (start context dlq seen x)).2.2
    ∃ k u, Checked st threshold context (E := E) (σ := σ) u (input.records.take k) trace := by
  intro trace
  have h0 : Checked st threshold context (F := F) (start (E := E) (P := P) context dlq seen x) [] [] :=
    ⟨⟨rfl, rfl, rfl, rfl, rfl⟩, rfl, rfl, rfl, by simp⟩
  obtain ⟨k, u, hu, -⟩ := readLoop_inv st store opts threshold input.sourceRaises
    (fun s done seen => Checked st threshold context s done seen)
    (fun s done seen record env o t hs hp => hs.passed hp) input.records _ [] [] h0
  simp only [trace, execute]
  split
  · exact ⟨0, _, h0⟩
  · split
    · next he => rw [he] at hu; exact ⟨k, u, hu⟩
    · next he => rw [he] at hu; exact ⟨k, u, hu⟩

/-- A check that aborts ends the run there. -/
theorem readLoop_aborts (st : Stages R E K P τ) (store : EventStore E F σ) (opts : PipelineOptions) (threshold : ℚ)
    (raises : Option Exn) (o : Outcome) (c : Checkpoint) (hc : c.aborts = true)
    (records : List (RawRecord R × RecordEnv F τ)) : ∀ (s : PipelineState E K P σ τ) (i : Nat),
      let r := readLoop st store opts threshold raises s records
      r.2.2[i]? = some ⟨o, some c⟩ → r.1 = .error thresholdExceeded ∧ r.2.2.length = i + 1 := by
  induction records with
  | nil =>
    intro s i
    cases raises <;> simp [readLoop]
  | cons x rest ih =>
    intro s i
    dsimp only
    rw [readLoop]
    split
    · simp
    · dsimp only
      split
      · simp
      · split
        · simp
        · split
          · intro hi
            cases i with
            | zero => exact ⟨rfl, rfl⟩
            | succ i => simp at hi
          · next hcheck =>
            intro hi
            cases i with
            | zero =>
              -- the check at the head let the run go on
              simp only [List.getElem?_cons_zero, Option.some.injEq, Observed.mk.injEq] at hi
              rw [hi.2, Option.any_some, hc] at hcheck
              exact absurd rfl hcheck
            | succ i =>
              obtain ⟨h1, h2⟩ := ih _ i hi
              exact ⟨h1, congrArg (· + 1) h2⟩

theorem execute_aborts {opts : PipelineOptions} {threshold : ℚ} {input : Run R F τ} {o : Outcome} {c : Checkpoint}
    (hc : c.aborts = true) {i : Nat} (hi : (execute st store opts threshold input s).2.2[i]? = some ⟨o, some c⟩) :
    (execute st store opts threshold input s).1 = .error thresholdExceeded ∧
      (execute st store opts threshold input s).2.2.length = i + 1 := by
  have h := readLoop_aborts st store opts threshold input.sourceRaises o c hc input.records s i
  revert hi
  simp only [execute]
  split
  · simp
  · split
    · next he => rw [he] at h; exact h
    · next he =>
      -- a read loop that returned has made no such check
      intro hi
      rw [he] at h
      cases (h hi).1

omit [DecidableEq K] in
/-- The records seen up to the `i`-th are rejected late as the input says. -/
theorem Checked.late_take {threshold : ℚ} {context : ParseContext} {records : List (RawRecord R × RecordEnv F τ)}
    {trace : List Observed} {k i : Nat} (h : Checked st threshold context s (records.take k) trace)
    (hi : i < trace.length) :
    (trace.take (i + 1)).map (·.outcome.isLate) = (lateRecords st context records).take (i + 1) := by
  have hlate := h.late
  have hlen := congrArg List.length hlate
  rw [List.length_map, lateRecords_take, List.length_take] at hlen
  rw [List.map_take, hlate, lateRecords_take, List.take_take, Nat.min_eq_left (by omega)]

/-- At every check of every run: the rate is the fraction of the records so far that were
rejected, and the run aborts just when that exceeds the threshold, if and only if no record so far
was parsed and then rejected. A check that aborts ends the run. -/
theorem check_accurate (st : Stages R E K P τ) (store : EventStore E F σ) (opts : PipelineOptions) (threshold : ℚ)
    (input : Run R F τ) (context : ParseContext) (dlq : DeadLetterQueue P τ) (seen : SeenKeys K) (x : σ) (i : Nat)
    (o : Outcome) (c : Checkpoint)
    (hi : (execute st store opts threshold input (start context dlq seen x)).2.2[i]? = some ⟨o, some c⟩) :
    let run := execute st store opts threshold input (start context dlq seen x)
    let fraction := rejectedFraction (run.2.2.take (i + 1))
    ((c.rate = fraction ∧ (c.aborts = true ↔ threshold < fraction)) ↔
      ∀ late ∈ (lateRecords st context input.records).take (i + 1), late = false) ∧
    (c.aborts = true → run.1 = .error thresholdExceeded ∧ run.2.2.length = i + 1) := by
  intro run fraction
  obtain ⟨k, u, hu⟩ := execute_checked st store opts threshold input context dlq seen x
  have hlt : i < run.2.2.length := (List.getElem?_eq_some_iff.1 hi).1
  have hdue := (hu.checks i _ hi).symm
  have hne : run.2.2.take (i + 1) ≠ [] := by
    apply List.ne_nil_of_length_pos
    rw [List.length_take]
    omega
  refine ⟨?_, fun hc => execute_aborts hc hi⟩
  rw [check_accurate_iff hne hdue, ← hu.late_take hlt, List.countP_eq_zero]
  simp only [List.forall_mem_map, Bool.not_eq_true]
  exact Iff.rfl

/-! ## A source in which every record is invalid -/

/-- Every line parses and is rejected by validation. -/
def invalidRun (n : Nat) : Run Unit TextFaults Unit := lineRun (List.replicate n "v")

def lineState : PipelineState Text Text Unit (TextWrite Unit Text) Unit :=
  start {} {} (SeenKeys.empty 10 SeenKeys.one_le_ten) { store := { files := ∅ } }

/-- The trace of that run at the threshold 1/2. -/
def invalidTrace (n : Nat) : List Observed := (execute lineStages lineStore {} (1 / 2) (invalidRun n) lineState).2.2

theorem processRecord_invalid (s : PipelineState Text Text Unit (TextWrite Unit Text) Unit) :
    ∃ t, processRecord lineStages lineStore false { now := (), store := {} }
      { payload := .text (Text.ofString "v") } s = (.ok .invalid, t) := by
  have hrow : DeadLetterQueue.rejected lineStages.dlq () (eventRejection lineStages (Text.ofString "v")
      .schemaViolation "validate" (Text.ofString "")) = .ok _ := rfl
  have hrecord := DeadLetterQueue.record_ok hrow (DeadLetterQueue.canAppend_default lineStages.dlq s.dlq)
  refine ⟨_, Prod.ext ?_ rfl⟩
  have hreject (p : ParseState Unit Unit) (hp : p.dlq = s.dlq) :
      (reject lineStages.dlq () {} p (eventRejection lineStages (Text.ofString "v") .schemaViolation "validate"
        (Text.ofString ""))).1 = .ok () := by
    rw [reject_fst, hp, hrecord]
    rfl
  -- everything up to the rejection computes
  let p : ParseState Unit Unit :=
    { context := s.context.enter ({ payload := .text (Text.ofString "v") } : RawRecord Unit)
      dlq := s.dlq
      result := { s.result with recordsParsed := s.result.recordsParsed + 1 } }
  exact congrArg (fun r : Except Exn Unit => r.map fun _ => Outcome.invalid) (hreject p rfl)

/-- No check stops a run in which as many records were parsed as rejected. -/
theorem readLoop_invalid (n : Nat) : ∀ s : PipelineState Text Text Unit (TextWrite Unit Text) Unit,
    s.result.recordsParsed = s.result.recordsRejected →
    ((readLoop lineStages lineStore {} (1 / 2) none s (List.replicate n
      ({ payload := .text (Text.ofString "v") }, { now := (), store := {} }))).2.2.map (·.outcome)) =
        List.replicate n .invalid := by
  induction n with
  | zero => intro s _; rfl
  | succ n ih =>
    intro s hs
    obtain ⟨t, ht⟩ := processRecord_invalid (countLine s)
    have hcounts : t.result.recordsParsed = s.result.recordsParsed + 1 ∧
        t.result.recordsRejected = s.result.recordsRejected + 1 := by
      cases processRecord_passed ht
      exact ⟨rfl, rfl⟩
    have hrate : t.result.rejectionRate = 1 / 2 := by
      rw [PipelineResult.rejectionRate, hcounts.1, hcounts.2, hs, if_neg (by omega)]
      push_cast
      field_simp
      ring
    have hcheck : ¬ (check (1 / 2) t).1.any (·.aborts) = true := by
      unfold check
      split <;> simp [hrate]
    rw [List.replicate_succ, readLoop, if_neg (by decide)]
    dsimp only
    rw [if_neg (by simp), ht]
    dsimp only
    rw [if_neg hcheck, List.map_cons, List.replicate_succ, ih]
    rw [check_eq]
    dsimp only
    omega

theorem invalidTrace_outcomes (n : Nat) : (invalidTrace n).map (·.outcome) = List.replicate n .invalid := by
  have h := readLoop_invalid n lineState rfl
  have hrecords : (invalidRun n).records = List.replicate n
      ({ payload := .text (Text.ofString "v") }, { now := (), store := {} }) := by
    rw [invalidRun, lineRun, List.map_replicate]
  rw [← hrecords] at h
  rw [invalidTrace, execute_trace lineStages lineStore {} (1 / 2) rfl]
  exact h

theorem length_invalidTrace (n : Nat) : (invalidTrace n).length = n := by
  have h := congrArg List.length (invalidTrace_outcomes n)
  rwa [List.length_map, List.length_replicate] at h

theorem invalidTrace_countP (n : Nat) {p : Outcome → Bool} (hp : p .invalid = true) :
    (invalidTrace n).countP (fun ob => p ob.outcome) = n := by
  have hc : (invalidTrace n).countP (fun ob => p ob.outcome) = ((invalidTrace n).map (·.outcome)).countP p :=
    List.countP_map.symm
  rw [hc, invalidTrace_outcomes, List.countP_replicate, if_pos hp]

/-- After `n` lines, all rejected, the check that is due finds a rate of 1/2. -/
theorem invalidTrace_check {n : Nat} (hn : 0 < n) (hd : 10000 ∣ n) :
    (invalidTrace n)[n - 1]? = some ⟨.invalid, some ⟨1 / 2, false⟩⟩ ∧ rejectedFraction (invalidTrace n) = 1 := by
  obtain ⟨k, u, hu⟩ := execute_checked lineStages lineStore {} (1 / 2) (invalidRun n) {} {}
    (SeenKeys.empty 10 SeenKeys.one_le_ten) { store := { files := ∅ } }
  have hlen := length_invalidTrace n
  have hcast : (n : ℚ) ≠ 0 := by exact_mod_cast hn.ne'
  have hrate : rateOf (invalidTrace n) = 1 / 2 := by
    rw [rateOf_eq, invalidTrace_countP n (p := Outcome.isRejected) rfl, invalidTrace_countP n (p := Outcome.isLate) rfl, hlen]
    push_cast
    field_simp
    ring
  constructor
  · obtain ⟨ob, hob⟩ : ∃ ob, (invalidTrace n)[n - 1]? = some ob := ⟨_, List.getElem?_eq_getElem (by omega)⟩
    have hcheck := hu.checks (n - 1) ob hob
    have htake : (invalidTrace n).take (n - 1 + 1) = invalidTrace n := List.take_of_length_le (by omega)
    have hout : ob.outcome = .invalid := by
      apply List.eq_of_mem_replicate (n := n)
      rw [← invalidTrace_outcomes n]
      exact List.mem_map_of_mem (List.mem_of_getElem? hob)
    obtain ⟨o, c⟩ := ob
    dsimp only at hout hcheck
    change c = dueCheck (1 / 2) ((invalidTrace n).take (n - 1 + 1)) at hcheck
    rw [htake, dueCheck, hlen, if_pos hd, hrate] at hcheck
    rw [hob, hout, hcheck]
    simp
  · rw [rejectedFraction, invalidTrace_countP n (p := Outcome.isRejected) rfl, hlen]
    exact div_self hcast

/-- A source of 10 000 lines that all parse and all fail validation. The one check finds a rate of
1/2 where every record read was rejected, and the run goes on. -/
theorem check_overcounts :
    ∃ c, (invalidTrace 10000)[9999]? = some ⟨.invalid, some c⟩ ∧
      ¬ (c.rate = rejectedFraction ((invalidTrace 10000).take 10000) ∧
        (c.aborts = true ↔ (1 : ℚ) / 2 < rejectedFraction ((invalidTrace 10000).take 10000))) := by
  obtain ⟨hc, hf⟩ := invalidTrace_check (n := 10000) (by decide) (by decide)
  refine ⟨_, hc, ?_⟩
  rw [List.take_of_length_le (Nat.le_of_eq (length_invalidTrace 10000)), hf]
  norm_num

/-- There the records rejected late are all of them. -/
theorem check_accurate_invalid :
    ∃ n : Nat, 0 < n ∧
      let run := execute lineStages lineStore {} (1 / 2) (invalidRun n)
        (start {} {} (SeenKeys.empty 10 SeenKeys.one_le_ten) { store := { files := ∅ } })
      let fraction := rejectedFraction (run.2.2.take (n - 1 + 1))
      (((1 : ℚ) / 2 = fraction ∧ (false = true ↔ (1 : ℚ) / 2 < fraction)) ↔
        ∀ late ∈ (lateRecords lineStages {} (invalidRun n).records).take (n - 1 + 1), late = false) ∧
      (false = true → run.1 = .error thresholdExceeded ∧ run.2.2.length = n - 1 + 1) := by
  -- the number of lines stays a variable, so that nothing unfolds the source
  have h (n : Nat) (hn : 0 < n) (hd : 10000 ∣ n) :=
    check_accurate lineStages lineStore {} (1 / 2) (invalidRun n) {} {} (SeenKeys.empty 10 SeenKeys.one_le_ten)
      { store := { files := ∅ } } (n - 1) .invalid ⟨1 / 2, false⟩ (invalidTrace_check hn hd).1
  exact ⟨10000, by decide, h 10000 (by decide) (by decide)⟩

end LogAnalytics.LogPipeline
