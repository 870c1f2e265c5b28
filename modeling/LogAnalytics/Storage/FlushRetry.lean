import LogAnalytics.Lib.Separated
import LogAnalytics.Stream.Effects
import LogAnalytics.Storage.ParquetEffects
/-!
# Retrying a flush over the Parquet store

A failed `StreamProcessor.flush` puts the batch back and the next one writes it again under a
new run id. What the failed attempt left in open writers is published by the next successful
flush, and what it had published stays: those rows are then stored twice. So a retry is exact
when nothing was left, and `LeavesNothing` says when an attempt leaves nothing.
-/
open LogAnalytics.Lib LogAnalytics.Stream LogAnalytics.Stream.StreamProcessor

namespace LogAnalytics.ParquetStore

/-! ## Run ids -/

theorem digits_plain (n : Nat) : ∀ c ∈ Nat.toDigits 10 n, Paths.isPlain c := by
  intro c hc
  have hd : c.isDigit := Nat.isDigit_of_mem_toDigits (by decide) (by decide) hc
  simp [Paths.isPlain, hd]

theorem runId_toList (pid time sequence : Nat) : (runId pid time sequence).toList =
    "stream-".toList ++ (toString pid).toList ++ "-".toList ++ (toString time).toList ++ "-".toList ++
      zeroPad 6 sequence := by
  simp only [runId, pad6, String.toList_append, String.toList_ofList]

theorem runId_plain (pid time sequence : Nat) : ∀ c ∈ (runId pid time sequence).toList, Paths.isPlain c := by
  intro c hc
  have hnum : ∀ n : Nat, ∀ c ∈ (toString n).toList, Paths.isPlain c := by
    intro n c hc
    rw [Nat.toString_eq_ofList_toDigits, String.toList_ofList] at hc
    exact digits_plain n c hc
  have hstream : ∀ c ∈ "stream-".toList, Paths.isPlain c := List.all_eq_true.1 (by decide)
  have hdash : ∀ c ∈ "-".toList, Paths.isPlain c := List.all_eq_true.1 (by decide)
  rw [runId_toList] at hc
  simp only [List.mem_append] at hc
  rcases hc with ((((hc | hc) | hc) | hc) | hc) | hc
  · exact hstream c hc
  · exact hnum pid c hc
  · exact hdash c hc
  · exact hnum time c hc
  · exact hdash c hc
  · simp [Paths.isPlain, zeroPad_isDigit c hc]

/-- The part after the last hyphen is the sequence number. -/
theorem runId_sequence {pid time sequence pid' time' sequence' : Nat}
    (h : runId pid time sequence = runId pid' time' sequence') : sequence = sequence' := by
  have hl := congrArg String.toList h
  rw [runId_toList, runId_toList] at hl
  have hdigit : ∀ n, '-' ∉ zeroPad 6 n := fun n hc => absurd (zeroPad_isDigit _ hc) (by decide)
  have hcons : ∀ (a x : List Char), a ++ "-".toList ++ x = a ++ '-' :: x := by intro a x; simp
  simp only [hcons] at hl
  exact zeroPad_injective (append_last_inj (hdigit _) (hdigit _) hl).2

/-- A run id of at most 48 characters is its own file name. -/
theorem safeRun_runId {D E : Type} {c : ParquetConfig D E} (hu : c.unicode.Lawful) {pid time sequence : Nat}
    (h : (runId pid time sequence).length ≤ 48) : safeRun c (runId pid time sequence) = runId pid time sequence := by
  refine Paths.safeFilename_plain hu _ (runId_plain pid time sequence) ?_ h
  rw [← String.length_toList, runId_toList]
  have hs : "stream-".toList.length = 7 := by decide
  simp only [List.length_append, hs]
  omega

/-! ## One attempt -/

variable {D E : Type} [DecidableEq D] {c : ParquetConfig D E}

/-- Everything one `write` appends for a batch. -/
def batchBuckets (c : ParquetConfig D E) (batch : List E) : List (D × List E) :=
  buckets c (batched (max 1000 c.batchSize) batch)

theorem contents_batchBuckets (c : ParquetConfig D E) (batch : List E) : contents (batchBuckets c batch) = batch := by
  rw [batchBuckets, contents_buckets, batched_flatten]

/-- The failed attempt leaves nothing of its batch in the dataset or in open writers: it
raises at its first bucket, or it writes the batch and then drops every writer. -/
def LeavesNothing (c : ParquetConfig D E) (env : FlushEnv ParquetFaults) (run : String) (batch : List E) : Prop :=
  (env.writeFs.append 0).isSome = true ∨
  (NeverRaises env.writeFs run 0 [] ((batchBuckets c batch).map (·.1)) ∧
    Dropped env.flushFs 0 (openAll run [] ((batchBuckets c batch).map (·.1))).length)

/-- No part of the run is in the dataset or open. -/
def FreshRun (s : ParquetStore D E) (run : String) : Prop :=
  ∀ d, s.files.lookup (.final (d, run)) = none ∧ (d, run) ∉ s.writers

theorem FreshRun.appended {s t : ParquetStore D E} {run run' : String} {rows : Multiset E} (hf : FreshRun s run')
    (ha : Appended s t run rows) (hne : run' ≠ run) : FreshRun t run' := by
  intro d
  refine ⟨by rw [ha.finals]; exact (hf d).1, fun hm => ?_⟩
  rcases ha.writers _ hm with h | h
  · exact (hf d).2 h
  · exact hne h

theorem FreshRun.flushed {s : ParquetStore D E} {run : String} (hf : FreshRun s run) (faults : ParquetFaults)
    (ho : Open s.files s.writers) : FreshRun (ParquetStore.flush faults s).2 run := by
  obtain ⟨hfin, hsub, -, -⟩ := flushWriters_spec faults s.writers 0 s.files [] ho
  intro d
  refine ⟨?_, fun hm => (hf d).2 (hsub _ hm)⟩
  rw [← (hf d).1]
  exact hfin.finals _ (hf d).2

/-- How `write` ends: at a bucket that raises, or with the whole batch in open writers. -/
theorem write_spec (c : ParquetConfig D E) (faults : ParquetFaults) {s : ParquetStore D E} {runId : String}
    (batch : List E) (ho : Open s.files s.writers) (hf : FreshRun s (safeRun c runId)) :
    (∃ exn pre b post t, (backend c).write faults s batch runId = (.error exn, t) ∧
      batchBuckets c batch = pre ++ b :: post ∧ StoppedAt faults (safeRun c runId) 0 s t pre b) ∨
    (∃ t, (backend c).write faults s batch runId = (.ok (), t) ∧
      NeverRaises faults (safeRun c runId) 0 s.writers ((batchBuckets c batch).map (·.1)) ∧
      Appended s t (safeRun c runId) batch ∧
      t.writers = openAll (safeRun c runId) s.writers ((batchBuckets c batch).map (·.1)) ∧
      (Filled s.files s.writers → Filled t.files t.writers)) := by
  have h := writeBatches_spec c faults (safeRun c runId) (batched (max 1000 c.batchSize) batch) s 0 [] ho fun d => (hf d).1
  have hw : (backend c).write faults s batch runId =
      ((write c faults s batch runId).1.map fun _ => (), (write c faults s batch runId).2) := rfl
  have hcontents := contents_batchBuckets c batch
  unfold batchBuckets at hcontents ⊢
  rw [hw, write]
  generalize writeBatches c faults (safeRun c runId) s 0 (batched (max 1000 c.batchSize) batch) [] = r at h
  obtain ⟨r, t⟩ := r
  rcases h with ⟨exn, pre, b, post, rfl, hbs, hstop⟩ | ⟨w, rfl, hnever, ha, hws, hfill⟩
  · exact .inl ⟨exn, pre, b, post, t, rfl, hbs, hstop⟩
  · rw [hcontents] at ha
    exact .inr ⟨t, rfl, hnever, ha, hws, hfill⟩

omit [DecidableEq D] in
/-- With no writer open yet, every fault of the first bucket is reached. -/
theorem appendRaises_of_isSome {fault : Option (AppendStep × Exn)} {isOpen : Prop} (h : fault.isSome = true)
    (hclosed : ¬ isOpen) : AppendRaises fault isOpen := by
  obtain ⟨⟨step, exn⟩, rfl⟩ := Option.isSome_iff_exists.1 h
  exact ⟨step, exn, rfl, fun ho => absurd ho hclosed⟩

omit [DecidableEq D] in
theorem isSome_of_appendRaises {fault : Option (AppendStep × Exn)} {isOpen : Prop} (h : AppendRaises fault isOpen) :
    fault.isSome = true := by
  obtain ⟨step, exn, rfl, -⟩ := h
  rfl

/-- From a store without open writers, a failed write leaves no rows exactly when it raised
at its first bucket. -/
theorem stopped_leaves {env : FlushEnv ParquetFaults} {run : String} {batch : List E} {s t : ParquetStore D E}
    {pre post : List (D × List E)} {b : D × List E} (hs : s.writers = [])
    (hb : batchBuckets c batch = pre ++ b :: post) (hstop : StoppedAt env.writeFs run 0 s t pre b) :
    (t.visible = s.visible ∧ openRows t.files t.writers = 0) ↔ LeavesNothing c env run batch := by
  have hopen : openRows t.files t.writers = contents pre := by
    rw [hstop.appended.openRows, hs, openRows_nil, zero_add]
  have hbefore := hstop.before
  have hraised := hstop.raised
  rw [hs] at hbefore hraised
  constructor
  · rintro ⟨-, hz⟩
    rw [hopen] at hz
    cases pre with
    | nil => exact .inl (isSome_of_appendRaises hraised)
    | cons b' pre =>
      exfalso
      rw [contents_cons] at hz
      have hb' : (b'.2 : Multiset E) = 0 := Multiset.le_zero.1 (hz ▸ Multiset.le_add_right _ _)
      exact buckets_nonempty c _ b' (by unfold batchBuckets at hb; rw [hb]; simp) (Multiset.coe_eq_zero b'.2 |>.1 hb')
  · intro h
    refine ⟨hstop.appended.visible, ?_⟩
    rw [hopen]
    rcases h with h | ⟨h, -⟩
    · cases pre with
      | nil => rfl
      | cons b' pre => exact absurd (appendRaises_of_isSome h (by simp)) hbefore.1
    · rw [hb, List.map_append, neverRaises_append, List.map_cons, List.length_map] at h
      exact absurd hraised h.2.1

/-- A failed flush of a clean store leaves nothing exactly when `LeavesNothing` holds of what
was raised. -/
theorem failed_leaves {K : Type} {env : FlushEnv ParquetFaults} {p q : StreamProcessor E K (ParquetStore D E)} {exn : Exn}
    (ho : Open p.store.files p.store.writers) (hclean : p.store.writers = [])
    (hf : FreshRun p.store (safeRun c (runId env.pid env.time (p.flushSequence + 1))))
    (h : StreamProcessor.flush (backend c) env p = (.error exn, q)) :
    (q.store.visible = p.store.visible ∧ openRows q.store.files q.store.writers = 0) ↔
      LeavesNothing c env (safeRun c (runId env.pid env.time (p.flushSequence + 1))) p.buffer := by
  have hw := write_spec c env.writeFs p.buffer ho hf
  cases flush_effect_of h with
  | writeFailed exn hb herr =>
    rcases hw with ⟨exn', pre, b, post, t, hr, hbs, hstop⟩ | ⟨t, hr, -⟩
    · simp only [hr]
      exact stopped_leaves hclean hbs hstop
    · rw [hr] at herr; cases herr
  | flushFailed exn t hb hr herr =>
    rcases hw with ⟨exn', pre, b, post, t', hr', -⟩ | ⟨t', hr', hnever, ha, hws, hfill⟩
    · rw [hr] at hr'; cases hr'
    · rw [hr] at hr'
      cases hr'
      have hfilled : Filled t.files t.writers := hfill (by rw [hclean]; intro w hm; cases hm)
      have hvis : t.visible = p.store.visible := ha.visible
      have hiff : ((backend c).flush env.flushFs t).2.visible = p.store.visible ∧
          openRows ((backend c).flush env.flushFs t).2.files ((backend c).flush env.flushFs t).2.writers = 0 ↔
          Dropped env.flushFs 0 t.writers.length := by
        rw [← hvis]
        exact flushWriters_dropped env.flushFs t.writers 0 t.files [] ha.opened hfilled
      rw [hws, hclean] at hiff
      rw [hclean] at hnever
      refine hiff.trans ⟨fun h => .inr ⟨hnever, h⟩, ?_⟩
      rintro (h | ⟨-, h⟩)
      · -- the write returned, so its first bucket cannot have raised
        exfalso
        cases hbs : batchBuckets c p.buffer with
        | nil =>
          have hc := contents_batchBuckets c p.buffer
          rw [hbs, contents_nil] at hc
          exact hb ((Multiset.coe_eq_zero _).1 hc.symm)
        | cons b bs =>
          rw [hbs, List.map_cons] at hnever
          exact hnever.1 (appendRaises_of_isSome h (by simp))
      · exact h

/-! ## Any number of attempts -/

/-- The store between two flushes of a process: it can go on, and the names of the runs to
come are free. -/
structure Ready (pid sequence : Nat) (s : ParquetStore D E) : Prop where
  opened : Open s.files s.writers
  fresh : ∀ time next, sequence < next → (runId pid time next).length ≤ 48 → FreshRun s (runId pid time next)

theorem Ready.next {pid time sequence : Nat} {s t : ParquetStore D E} (hr : Ready pid sequence s) (ho : Open t.files t.writers)
    (hf : ∀ run, FreshRun s run → run ≠ runId pid time (sequence + 1) → FreshRun t run) : Ready pid (sequence + 1) t := by
  refine ⟨ho, fun time' next hlt hfit => ?_⟩
  refine hf _ (hr.fresh time' next (by omega) hfit) fun he => ?_
  have := runId_sequence he
  omega

variable {R K τ : Type} [DecidableEq K]

/-- From `p`, messages are handled and flushes are tried, all of which raise. -/
inductive Retrying (st : Stream.Stages R E K τ) (c : ParquetConfig D E) (pid : Nat) (p : StreamProcessor E K (ParquetStore D E)) :
    StreamProcessor E K (ParquetStore D E) → Prop
  | start : Retrying st c pid p p
  | handle (q : StreamProcessor E K (ParquetStore D E)) (env : HandleEnv τ) (m : Message R) : Retrying st c pid p q →
      Retrying st c pid p (StreamProcessor.handle st env.now env.dlqRaises q m).2
  | failed (q q' : StreamProcessor E K (ParquetStore D E)) (env : FlushEnv ParquetFaults) (exn : Exn) :
      Retrying st c pid p q → env.pid = pid → (runId pid env.time (q.flushSequence + 1)).length ≤ 48 →
      StreamProcessor.flush (backend c) env q = (.error exn, q') → Retrying st c pid p q'

omit [DecidableEq K] in
/-- A failed attempt leaves the store ready for the next and hides nothing. -/
theorem Ready.failed (hu : c.unicode.Lawful) {env : FlushEnv ParquetFaults} {q q' : StreamProcessor E K (ParquetStore D E)}
    {exn : Exn} (hr : Ready env.pid q.flushSequence q.store)
    (hfit : (runId env.pid env.time (q.flushSequence + 1)).length ≤ 48)
    (h : StreamProcessor.flush (backend c) env q = (.error exn, q')) :
    Ready env.pid q'.flushSequence q'.store ∧ q.store.visible ≤ q'.store.visible := by
  have hsafe := safeRun_runId (c := c) hu hfit
  have hfresh := hr.fresh env.time _ (Nat.lt_succ_self _) hfit
  have hw := write_spec c env.writeFs q.buffer hr.opened (by rw [hsafe]; exact hfresh)
  rw [hsafe] at hw
  cases flush_effect_of h with
  | writeFailed exn hb herr =>
    rcases hw with ⟨exn', pre, b, post, t, hwr, -, hstop⟩ | ⟨t, hwr, -⟩
    · simp only [hwr]
      have ha := hstop.appended
      exact ⟨hr.next ha.opened fun run hf hne => hf.appended ha hne, by rw [ha.visible]⟩
    · rw [hwr] at herr; cases herr
  | flushFailed exn t hb hwr herr =>
    rcases hw with ⟨exn', pre, b, post, t', hwr', -⟩ | ⟨t', hwr', -, ha, -⟩
    · rw [hwr] at hwr'; cases hwr'
    · rw [hwr] at hwr'
      cases hwr'
      obtain ⟨hfin, -, hle, -⟩ := flushWriters_spec env.flushFs t.writers 0 t.files [] ha.opened
      refine ⟨hr.next hfin.opened fun run hf hne => (hf.appended ha hne).flushed env.flushFs ha.opened, ?_⟩
      rw [← ha.visible]
      exact hle

theorem Retrying.ready {st : Stream.Stages R E K τ} (hu : c.unicode.Lawful) {pid : Nat}
    {p q : StreamProcessor E K (ParquetStore D E)} (hr : Ready pid p.flushSequence p.store) (h : Retrying st c pid p q) :
    Ready pid q.flushSequence q.store ∧ p.store.visible ≤ q.store.visible := by
  induction h with
  | start => exact ⟨hr, le_refl _⟩
  | handle q env m _ ih =>
    obtain ⟨hs, hseq⟩ := handle_store (handle_effect st env.now env.dlqRaises q m)
    rw [hs, hseq]
    exact ih
  | failed q q' env exn _ hpid hfit hf ih =>
    subst hpid
    obtain ⟨h1, h2⟩ := ih.1.failed hu hfit hf
    exact ⟨h1, le_trans ih.2 h2⟩

omit [DecidableEq K] in
/-- A successful flush publishes the buffer and everything left in open writers. -/
theorem Ready.published (hu : c.unicode.Lawful) {env : FlushEnv ParquetFaults}
    {q r : StreamProcessor E K (ParquetStore D E)} {n : Nat} (hr : Ready env.pid q.flushSequence q.store)
    (hfit : (runId env.pid env.time (q.flushSequence + 1)).length ≤ 48) (hb : q.buffer ≠ [])
    (h : StreamProcessor.flush (backend c) env q = (.ok n, r)) :
    r.store.visible = q.store.visible + openRows q.store.files q.store.writers + q.buffer := by
  have hsafe := safeRun_runId (c := c) hu hfit
  have hw := write_spec c env.writeFs q.buffer hr.opened
    (by rw [hsafe]; exact hr.fresh env.time _ (Nat.lt_succ_self _) hfit)
  cases flush_effect_of h with
  | empty he => exact absurd he hb
  | published t _ hwr hfl =>
    rcases hw with ⟨exn', pre, b, post, t', hwr', -⟩ | ⟨t', hwr', -, ha, -⟩
    · rw [hwr] at hwr'; cases hwr'
    · rw [hwr] at hwr'
      cases hwr'
      obtain ⟨-, -, -, hok⟩ := flushWriters_spec env.flushFs t.writers 0 t.files [] ha.opened
      obtain ⟨-, -, htotal⟩ := hok hfl
      have hv : ((backend c).flush env.flushFs t).2.visible = t.visible + openRows t.files t.writers := htotal
      rw [hv, ha.visible, ha.openRows, add_assoc]

/-- From a store without open writers: however many flushes fail before one succeeds, every
row of the buffer is in the dataset exactly once more than before exactly when the failed
ones left nothing of their batches published or in open writers; and a failed flush leaves
nothing exactly when it raised at its first bucket, or had written its batch and then dropped
every writer. -/
theorem flush_retry (st : Stream.Stages R E K τ) (hu : c.unicode.Lawful) (p q r : StreamProcessor E K (ParquetStore D E))
    (env : FlushEnv ParquetFaults) (n : Nat) (hr : Ready env.pid p.flushSequence p.store) (hclean : p.store.writers = [])
    (hq : Retrying st c env.pid p q) (hb : q.buffer ≠ [])
    (hfit : (runId env.pid env.time (q.flushSequence + 1)).length ≤ 48)
    (hok : StreamProcessor.flush (backend c) env q = (.ok n, r)) :
    (r.store.visible = p.store.visible + q.buffer ↔
      q.store.visible = p.store.visible ∧ openRows q.store.files q.store.writers = 0) ∧
    ∀ (env₁ : FlushEnv ParquetFaults) (exn : Exn) (p₁ : StreamProcessor E K (ParquetStore D E)), env₁.pid = env.pid →
      (runId env₁.pid env₁.time (p.flushSequence + 1)).length ≤ 48 →
      StreamProcessor.flush (backend c) env₁ p = (.error exn, p₁) →
      (p₁.store.visible = p.store.visible ∧ openRows p₁.store.files p₁.store.writers = 0 ↔
        LeavesNothing c env₁ (runId env₁.pid env₁.time (p.flushSequence + 1)) p.buffer) := by
  obtain ⟨hrq, hle⟩ := hq.ready hu hr
  constructor
  · rw [hrq.published hu hfit hb hok, Multiset.add_left_inj]
    constructor
    · intro h
      have hv : q.store.visible = p.store.visible := le_antisymm (h ▸ Multiset.le_add_right _ _) hle
      rw [hv] at h
      exact ⟨hv, Multiset.add_right_inj.1 (h.trans (add_zero _).symm)⟩
    · rintro ⟨hv, ho⟩
      rw [hv, ho, add_zero]
  · intro env₁ exn p₁ hpid hfit₁ hf
    have hsafe := safeRun_runId (c := c) hu hfit₁
    have hfresh : FreshRun p.store (runId env₁.pid env₁.time (p.flushSequence + 1)) := by
      rw [hpid] at hfit₁ ⊢
      exact hr.fresh env₁.time _ (Nat.lt_succ_self _) hfit₁
    have h := failed_leaves hr.opened hclean (by rw [hsafe]; exact hfresh) hf
    rwa [hsafe] at h

/-! ## Two attempts on a batch of two partitions -/

/-- Numbers are their own messages. -/
def numberStages : Stream.Stages Nat Nat Nat Unit where
  parse _ _ := .error ⟨.parseError, "not a record"⟩
  parseRecord := some fun _ n => .ok n
  jsonLineParser _ n := .ok n
  transform := .ok
  validate _ _ := .ok { valid := true }
  key := some
  maskText := id
  strOf := toString
  source := "topic"

/-- Odd and even numbers go to different partitions. -/
def parityConfig : ParquetConfig Bool Nat := ⟨asciiUnicode, 1000, fun e => e % 2 = 1⟩

def parityProcessor : StreamProcessor Nat Nat (ParquetStore Bool Nat) :=
  { StreamProcessor.new 0 { seen := .empty 10 SeenKeys.one_le_ten } ⟨10, []⟩ { files := ∅ } with buffer := [1, 2] }

/-- The first flush of the process, with these faults. -/
def firstFlush (writeFs flushFs : ParquetFaults) : Except Exn Nat × StreamProcessor Nat Nat (ParquetStore Bool Nat) :=
  StreamProcessor.flush (backend parityConfig) ⟨7, 1, 0, writeFs, flushFs⟩ parityProcessor

/-- The second flush, with none. -/
def secondFlush (p : StreamProcessor Nat Nat (ParquetStore Bool Nat)) :
    Except Exn Nat × StreamProcessor Nat Nat (ParquetStore Bool Nat) :=
  StreamProcessor.flush (backend parityConfig) ⟨7, 2, 0, {}, {}⟩ p

/-- The disk is full when the first writer is opened. -/
def diskFull : ParquetFaults := { append := fun _ => some (.openWriter, ⟨.osError, "disk full"⟩) }

/-- The second of the two renames fails. -/
def secondRenameFails : ParquetFaults :=
  { finalise := fun k => if k = 1 then some (.replace, ⟨.osError, "input/output error"⟩) else none }

/-- After a flush that could not open its first writer, the retry stores each row once. -/
theorem flush_retry_diskFull :
    (secondFlush (firstFlush diskFull {}).2).2.store.visible = ({1, 2} : Multiset Nat) ∧
    LeavesNothing parityConfig ⟨7, 1, 0, diskFull, {}⟩ (runId 7 1 1) [1, 2] := by
  have hnone : ∀ w, w ∉ parityProcessor.store.writers := fun w => List.not_mem_nil
  have hready : Ready 7 0 parityProcessor.store :=
    ⟨⟨List.nodup_nil, fun w hw => absurd hw (hnone w), fun w hw => absurd hw (hnone w)⟩,
      fun _ _ _ _ _ => ⟨rfl, hnone _⟩⟩
  have hfailed : Retrying numberStages parityConfig 7 parityProcessor (firstFlush diskFull {}).2 :=
    .failed parityProcessor _ ⟨7, 1, 0, diskFull, {}⟩ ⟨.storageError, "failed to open a Parquet writer"⟩ .start rfl
      (by decide) rfl
  obtain ⟨h1, h2⟩ := flush_retry numberStages asciiUnicode_lawful parityProcessor (firstFlush diskFull {}).2
    (secondFlush (firstFlush diskFull {}).2).2 ⟨7, 2, 0, {}, {}⟩ 2 hready rfl hfailed (by decide) (by decide) rfl
  have hleft := (h2 ⟨7, 1, 0, diskFull, {}⟩ ⟨.storageError, "failed to open a Parquet writer"⟩ _ rfl (by decide) rfl).2
    (.inl rfl)
  exact ⟨(h1.2 hleft).trans (by decide), .inl rfl⟩

/-- After a flush whose second rename failed, the retry stores the first partition again. -/
theorem flush_retry_stores_twice :
    (firstFlush {} secondRenameFails).1 = .error ⟨.storageError, "failed to finalise Parquet files"⟩ ∧
    (firstFlush {} secondRenameFails).2.buffer = [1, 2] ∧
    (secondFlush (firstFlush {} secondRenameFails).2).1 = .ok 2 ∧
    (secondFlush (firstFlush {} secondRenameFails).2).2.store.visible = ({1, 1, 2} : Multiset Nat) := by
  refine ⟨rfl, rfl, rfl, by decide⟩

end LogAnalytics.ParquetStore
