import LogAnalytics.Masking
import LogAnalytics.Pipeline.Conservation
/-!
# What deduplication drops

The key of an event is taken from its texts as the transformation has left them, so two lines
that masking makes equal are duplicates of each other. A run drops nothing exactly when the
payloads of the accepted records are far enough apart.
-/

namespace LogAnalytics.LogPipeline

variable {R E K P F σ τ : Type}

/-- The event parse, transform and validate make of a record, if they accept it. -/
def acceptedEvent (st : Stages R E K P τ) (now : τ) (c : ParseContext) (record : RawRecord R) : Option E :=
  match parsePayload st now record (c.enter record) with
  | .error _ => none
  | .ok event =>
    match st.transform event with
    | .error _ => none
    | .ok event =>
      match st.validate now event with
      | .error _ => none
      | .ok outcome => if outcome.valid then some event else none

theorem acceptedEvent_eq_some {st : Stages R E K P τ} {now : τ} {c : ParseContext} {record : RawRecord R} {event : E} :
    acceptedEvent st now c record = some event ↔
      ∃ parsed outcome, parsePayload st now record (c.enter record) = .ok parsed ∧ st.transform parsed = .ok event ∧
        st.validate now event = .ok outcome ∧ outcome.valid = true := by
  constructor
  · intro h
    unfold acceptedEvent at h
    split at h
    · cases h
    · next parsed hparse =>
      split at h
      · cases h
      · next event' htransform =>
        split at h
        · cases h
        · next outcome hvalidate =>
          split at h
          · next hvalid =>
            cases h
            exact ⟨parsed, outcome, hparse, htransform, hvalidate, hvalid⟩
          · cases h
  · rintro ⟨parsed, outcome, hparse, htransform, hvalidate, hvalid⟩
    simp [acceptedEvent, hparse, htransform, hvalidate, hvalid]

/-- The events accepted from records that begin in context `c`. -/
def acceptedEvents (st : Stages R E K P τ) : ParseContext → List (RawRecord R × RecordEnv F τ) → List E
  | _, [] => []
  | c, (record, env) :: rest => (acceptedEvent st env.now c record).toList ++ acceptedEvents st (c.enter record) rest

/-- Their payloads: the raw messages, or the messages of those without one. -/
def payloads (st : Stages R E K P τ) (c : ParseContext) (records : List (RawRecord R × RecordEnv F τ)) : List Text :=
  ((acceptedEvents st c records).map st.rawOf).filter (· ≠ [])

theorem acceptedEvents_snoc (st : Stages R E K P τ) (records : List (RawRecord R × RecordEnv F τ)) :
    ∀ (c : ParseContext) (record : RawRecord R) (env : RecordEnv F τ), acceptedEvents st c (records ++ [(record, env)]) =
      acceptedEvents st c records ++ (acceptedEvent st env.now (contextAfter c records) record).toList := by
  induction records with
  | nil => intro c record env; simp [acceptedEvents, contextAfter]
  | cons x rest ih =>
    intro c record env
    obtain ⟨r, e⟩ := x
    rw [List.cons_append, acceptedEvents, acceptedEvents, ih, List.append_assoc]
    rfl

/-- The keys of the accepted events are the hashes of their payloads. -/
theorem filterMap_contentHashKey {st : Stages R E K P τ} {hash : Text → K}
    (hkey : st.key = Deduplicator.contentHashKey hash st.rawOf) (events : List E) :
    events.filterMap st.key = ((events.map st.rawOf).filter (· ≠ [])).map hash := by
  induction events with
  | nil => rfl
  | cons event events ih =>
    rw [List.filterMap_cons, hkey, Deduplicator.contentHashKey, List.map_cons]
    rw [hkey] at ih
    by_cases hraw : st.rawOf event = []
    · rw [if_pos hraw, List.filter_cons_of_neg (by simp [hraw])]
      exact ih
    · rw [if_neg hraw, List.filter_cons_of_pos (by simp [hraw]), List.map_cons]
      exact congrArg _ ih

/-! ## The keys of a run -/

/-- The deduplicator after the records `done`: as long as it has dropped none it tracks the last keys. -/
structure Tracks (st : Stages R E K P τ) (c : ParseContext) (size : Nat) (s : PipelineState E K P σ τ)
    (done : List (RawRecord R × RecordEnv F τ)) (seen : List Observed) : Prop where
  length : seen.length = done.length
  context : s.context = contextAfter c done
  count : seen.countP (!·.outcome.isRejected) = (acceptedEvents st c done).length
  capacity : s.deduplicator.seen.maxSize = size
  spaced : (∀ o ∈ seen, o.outcome ≠ .duplicate) ↔ Spaced size ((acceptedEvents st c done).filterMap st.key)
  keys : Spaced size ((acceptedEvents st c done).filterMap st.key) → s.deduplicator.seen.keys =
    ((acceptedEvents st c done).filterMap st.key).drop (((acceptedEvents st c done).filterMap st.key).length - size)

variable [DecidableEq K] {st : Stages R E K P τ} {store : EventStore E F σ} {dryRun : Bool} {env : RecordEnv F τ}
  {record : RawRecord R} {s t : PipelineState E K P σ τ} {o : Outcome} {c : ParseContext} {size : Nat}
  {done : List (RawRecord R × RecordEnv F τ)} {seen : List Observed}

omit [DecidableEq K] in
/-- A record without a key to track. -/
theorem Tracks.skip (h : Tracks st c size s done seen) (hcontext : t.context = s.context.enter record)
    (hseen : t.deduplicator.seen = s.deduplicator.seen) (hne : o ≠ .duplicate)
    (hrejected : o.isRejected = (acceptedEvent st env.now s.context record).isNone)
    (hkey : (acceptedEvent st env.now s.context record).toList.filterMap st.key = []) (checkpoint : Option Checkpoint) :
    Tracks st c size t (done ++ [(record, env)]) (seen ++ [⟨o, checkpoint⟩]) := by
  have hkeys : (acceptedEvents st c (done ++ [(record, env)])).filterMap st.key = (acceptedEvents st c done).filterMap st.key := by
    rw [acceptedEvents_snoc, ← h.context, List.filterMap_append, hkey, List.append_nil]
  refine ⟨?_, ?_, ?_, by rw [hseen, h.capacity], ?_, ?_⟩
  · simp [h.length]
  · rw [hcontext, h.context, contextAfter, contextAfter, List.foldl_append]
    rfl
  · rw [acceptedEvents_snoc, ← h.context, List.countP_append, List.length_append, h.count, List.countP_singleton, hrejected]
    cases acceptedEvent st env.now s.context record <;> rfl
  · rw [hkeys, ← h.spaced]
    simp [or_imp, forall_and, hne]
  · rw [hkeys, hseen]
    exact h.keys

/-- The last keys, one key later. -/
theorem drop_snoc {L : Type} (ks : List L) (k : L) (n : Nat) :
    (ks.drop (ks.length - n) ++ [k]).drop ((ks.drop (ks.length - n)).length + 1 - n) =
      (ks ++ [k]).drop ((ks ++ [k]).length - n) := by
  rw [← List.drop_append_of_le_length (Nat.sub_le _ _), List.drop_drop, List.length_drop, List.length_append,
    List.length_singleton]
  congr 1
  omega

/-- An accepted record with a key. -/
theorem Tracks.track (h : Tracks st c size s done seen) {event : E} {k : K}
    (haccepted : acceptedEvent st env.now s.context record = some event) (hkey : st.key event = some k)
    (hcontext : t.context = s.context.enter record)
    (hdedup : t.deduplicator = (s.deduplicator.isDuplicate st.key event).2)
    (hrejected : o.isRejected = false) (ho : o = .duplicate ↔ (s.deduplicator.isDuplicate st.key event).1 = true) (checkpoint : Option Checkpoint) :
    Tracks st c size t (done ++ [(record, env)]) (seen ++ [⟨o, checkpoint⟩]) := by
  have hkeys : (acceptedEvents st c (done ++ [(record, env)])).filterMap st.key = (acceptedEvents st c done).filterMap st.key ++ [k] := by
    rw [acceptedEvents_snoc, ← h.context, haccepted, List.filterMap_append]
    simp [hkey]
  have hseen : t.deduplicator.seen = (s.deduplicator.seen.add k).2 := by
    rw [hdedup, Deduplicator.isDuplicate_seen, hkey]
  have hdup : o = .duplicate ↔ k ∈ s.deduplicator.seen.keys := by
    rw [ho, Deduplicator.isDuplicate_fst, hkey]
    simp
  refine ⟨?_, ?_, ?_, by rw [hseen, SeenKeys.add_maxSize, h.capacity], ?_, ?_⟩
  · simp [h.length]
  · rw [hcontext, h.context, contextAfter, contextAfter, List.foldl_append]
    rfl
  · rw [acceptedEvents_snoc, ← h.context, List.countP_append, List.length_append, h.count, List.countP_singleton, haccepted,
      hrejected]
    rfl
  · rw [hkeys, spaced_snoc, ← h.spaced]
    simp only [List.mem_append, List.mem_singleton, or_imp, forall_and, forall_eq, ne_eq, hdup]
    exact and_congr_right fun hall => by rw [h.keys (h.spaced.1 hall)]
  · rw [hkeys, spaced_snoc]
    rintro ⟨hspaced, hfresh⟩
    have hlast := h.keys hspaced
    rw [← hlast] at hfresh
    rw [hseen, SeenKeys.add_keys_of_fresh hfresh, h.capacity, hlast]
    exact drop_snoc _ k size

omit [DecidableEq K] in
theorem acceptedEvent_of_valid {now : τ} {c : ParseContext} {event event' : E} {outcome : ValidationResult}
    (hparse : parsePayload st now record (c.enter record) = .ok event) (htransform : st.transform event = .ok event')
    (hvalidate : st.validate now event' = .ok outcome) :
    acceptedEvent st now c record = if outcome.valid then some event' else none := by
  simp [acceptedEvent, hparse, htransform, hvalidate]

theorem Tracks.passed (h : Tracks st c size s done seen) (hp : Passed st store dryRun env record (countLine s) o t)
    (checkpoint : Option Checkpoint) : Tracks st c size t (done ++ [(record, env)]) (seen ++ [⟨o, checkpoint⟩]) := by
  cases hp with
  | unparsed exn reason detail dlq hparse hcaught =>
    have hparse' : parsePayload st env.now record (s.context.enter record) = .error exn := hparse
    apply h.skip
    · rfl
    · rfl
    · simp
    · simp [acceptedEvent, hparse', Outcome.isRejected]
    · simp [acceptedEvent, hparse']
  | untransformed event exn dlq hparse htransform =>
    have hparse' : parsePayload st env.now record (s.context.enter record) = .ok event := hparse
    apply h.skip
    · rfl
    · rfl
    · simp
    · simp [acceptedEvent, hparse', htransform, Outcome.isRejected]
    · simp [acceptedEvent, hparse', htransform]
  | invalid event event' outcome dlq hparse htransform hvalidate hinvalid =>
    apply h.skip
    · rfl
    · rfl
    · simp
    · rw [acceptedEvent_of_valid (c := s.context) hparse htransform hvalidate, hinvalid]
      rfl
    · rw [acceptedEvent_of_valid (c := s.context) hparse htransform hvalidate, hinvalid]
      rfl
  | duplicate event event' outcome dlq hparse htransform hvalidate hvalid hseen =>
    obtain ⟨k, hkey, -⟩ := (Deduplicator.isDuplicate_fst st.key _ event').1 hseen
    apply h.track _ hkey
    · rfl
    · rfl
    · rfl
    · exact ⟨fun _ => hseen, fun _ => rfl⟩
    · rw [acceptedEvent_of_valid (c := s.context) hparse htransform hvalidate, hvalid]
      rfl
  | kept event event' outcome x batch hparse htransform hvalidate hvalid hseen _ =>
    have haccepted : acceptedEvent st env.now s.context record = some event' := by
      rw [acceptedEvent_of_valid (c := s.context) hparse htransform hvalidate, hvalid]
      rfl
    cases hkey : st.key event' with
    | none =>
      apply h.skip
      · rfl
      · change (s.deduplicator.isDuplicate st.key event').2.seen = s.deduplicator.seen
        rw [Deduplicator.isDuplicate_seen, hkey]
      · simp
      · rw [haccepted]
        rfl
      · simp [haccepted, hkey]
    | some k =>
      apply h.track haccepted hkey
      · rfl
      · rfl
      · rfl
      · rw [show (s.deduplicator.isDuplicate st.key event').1 = false from hseen]
        simp

omit [DecidableEq K] in
theorem Tracks.check (h : Tracks st c size s done seen) (threshold : ℚ) :
    Tracks st c size (LogPipeline.check threshold s).2 done seen := by
  rw [check_eq]
  exact ⟨h.length, h.context, h.count, h.capacity, h.spaced, h.keys⟩

/-! ## A whole run -/

/-- The records a run got through are those of its trace, and they were deduplicated as they came. -/
theorem execute_tracks (st : Stages R E K P τ) (store : EventStore E F σ) (opts : PipelineOptions) (threshold : ℚ)
    (input : Run R F τ) (context : ParseContext) (dlq : DeadLetterQueue P τ) {size : Nat} (hsize : 1 ≤ size) (x : σ) :
    let trace := (execute st store opts threshold input (start context dlq (.empty size hsize) x)).2.2
    ∃ s : PipelineState E K P σ τ, Tracks st context size s (input.records.take trace.length) trace := by
  have hstart : Tracks st context size (start (E := E) context dlq (.empty size hsize) x)
      ([] : List (RawRecord R × RecordEnv F τ)) [] :=
    ⟨rfl, rfl, rfl, rfl, by simp [acceptedEvents, Spaced.nil], by simp [acceptedEvents, start, SeenKeys.empty]⟩
  cases hprepare : input.prepareRaises with
  | some exn =>
    refine ⟨start context dlq (.empty size hsize) x, ?_⟩
    rw [execute, hprepare]
    exact hstart
  | none =>
    obtain ⟨k, u, hu, -⟩ := readLoop_inv st store opts threshold input.sourceRaises (Tracks st context size)
      (fun _ _ _ _ _ _ _ h hp => (h.passed hp _).check threshold) input.records _ [] [] hstart
    rw [execute_trace st store opts threshold hprepare]
    simp only [List.nil_append] at hu
    refine ⟨u, ?_⟩
    rw [hu.length, List.length_take, ← List.take_eq_take_min]
    exact hu

/-- With the content hash as key, a run counts no accepted record as a duplicate exactly when of
every `max_tracked_keys + 1` payloads in a row no two are equal; then every accepted record is kept. -/
theorem dedup_keeps_distinct (st : Stages R E K P τ) (store : EventStore E F σ) (opts : PipelineOptions) (threshold : ℚ)
    (input : Run R F τ) (context : ParseContext) (dlq : DeadLetterQueue P τ) (size : Nat) (hsize : 1 ≤ size) (x : σ)
    (hash : Text → K) (hinjective : Function.Injective hash) (hkey : st.key = Deduplicator.contentHashKey hash st.rawOf) :
    let trace := (execute st store opts threshold input (start context dlq (.empty size hsize) x)).2.2
    let processed := input.records.take trace.length
    ((∀ o ∈ trace, o.outcome ≠ .duplicate) ↔ Spaced size (payloads st context processed)) ∧
    ((∀ o ∈ trace, o.outcome ≠ .duplicate) → trace.countP (·.outcome = .kept) = (acceptedEvents st context processed).length) := by
  intro trace processed
  obtain ⟨s, h⟩ := execute_tracks st store opts threshold input context dlq hsize x
  constructor
  · refine h.spaced.trans ?_
    rw [filterMap_contentHashKey hkey, spaced_map hinjective]
    rfl
  · intro hnone
    obtain ⟨-, hcount, -⟩ := countP_outcomes trace
    have hzero : trace.countP (·.outcome = .duplicate) = 0 :=
      List.countP_eq_zero.2 fun o ho => by simpa using hnone o ho
    rw [← h.count, hcount, hzero, Nat.add_zero]

/-! ## Two lines with a password -/

/-- What the rule for `key=value` makes of a line that is one password assignment. -/
def passwordRule (text : Text) : Text :=
  if (Text.ofString "password=").isPrefixOf text then Text.ofString "password=" ++ redacted else text

/-- The trigger and the rule that two such lines meet. -/
def passwordMasker : Masker where
  lower := asciiCase.lower
  mayContainSecret text := (Text.ofString "password").isPrefixOf text
  rules := [passwordRule]

/-- Lines that are their own messages and raw messages, masked before they are deduplicated. -/
def maskedStages : Stages Unit Text Text Unit Unit where
  parser := { parse := fun _ line _ => .ok line }
  jsonLineParser _ _ _ := .error ⟨.typeError, "a line is not a mapping"⟩
  dumps _ := .ok []
  transform line := .ok (passwordMasker.maskText line)
  validate _ _ := .ok { valid := true }
  key := Deduplicator.contentHashKey id id
  keepDuplicates := false
  dlq := { maskText := passwordMasker.maskText, maskMapping := id, contentHash := fun _ => "", refusal := "",
           maxRecords := 3, enabled := true }
  rawOf := id
  sourceOf _ := Text.ofString "lines"
  partialOf _ := ()

/-- The trace of a run on these lines. -/
def maskedTrace (lines : List String) : List Observed :=
  (execute maskedStages lineStore {} (1 / 2) (lineRun lines) (start {} {} (.empty 10 SeenKeys.one_le_ten) { store := { files := ∅ } })).2.2

theorem dedup_keeps_distinct_lines :
    ((∀ o ∈ maskedTrace ["a", "b"], o.outcome ≠ .duplicate) ↔ Spaced 10 [Text.ofString "a", Text.ofString "b"]) ∧
    ((∀ o ∈ maskedTrace ["a", "b"], o.outcome ≠ .duplicate) → (maskedTrace ["a", "b"]).countP (·.outcome = .kept) = 2) :=
  dedup_keeps_distinct maskedStages lineStore {} (1 / 2) (lineRun ["a", "b"]) {} {} 10 SeenKeys.one_le_ten _ id
    Function.injective_id rfl

/-- The second of two distinct lines is dropped: masking makes them equal. -/
theorem dedup_drops_distinct : Text.ofString "password=hunter2" ≠ Text.ofString "password=letmein" ∧
    (maskedTrace ["password=hunter2", "password=letmein"]).map (·.outcome) = [.kept, .duplicate] := by
  decide

end LogAnalytics.LogPipeline
