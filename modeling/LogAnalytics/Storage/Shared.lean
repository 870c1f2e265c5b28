import LogAnalytics.Storage.EventStore
/-!
# A store that outlives its runs

The counters of a `StorageBackend` belong to the object. A `write` works on them and on the
files it touches itself; what it touches starts empty with each call, the counters do not. Both
kinds of store keep the laws.
-/
open LogAnalytics.Lib

namespace LogAnalytics

/-- `σ` is the store between two calls of `write`, `ω` the store inside one. -/
structure SharedStore (E F σ ω : Type) where
  /-- The store inside the `write` of a run. -/
  write : String → EventStore E F ω
  opens : σ → ω
  leaves : ω → σ
  recordsWritten : σ → Nat
  filesWritten : σ → List String
  /-- The file the run puts an event in. -/
  file : String → E → String
  opens_recordsWritten : ∀ run s, (write run).recordsWritten (opens s) = recordsWritten s
  opens_filesWritten : ∀ run s, (write run).filesWritten (opens s) = filesWritten s
  opens_touched : ∀ run s, (write run).touched (opens s) = []
  leaves_recordsWritten : ∀ run w, recordsWritten (leaves w) = (write run).recordsWritten w
  leaves_filesWritten : ∀ run w, filesWritten (leaves w) = (write run).filesWritten w
  leaves_opens : ∀ s, leaves (opens s) = s
  writeBatch_touched : ∀ run f w batch, ((write run).writeBatch f w batch).1 = .ok () →
    ∀ path, path ∈ (write run).touched ((write run).writeBatch f w batch).2 ↔
      path ∈ (write run).touched w ∨ ∃ e ∈ batch, file run e = path
  writeBatch_filesWritten : ∀ run f w batch,
    (write run).filesWritten ((write run).writeBatch f w batch).2 = (write run).filesWritten w
  finish_touched : ∀ run w, (write run).touched ((write run).finish w) = (write run).touched w
  finish_filesWritten : ∀ run w path, path ∈ (write run).filesWritten ((write run).finish w) ↔
    path ∈ (write run).filesWritten w ∨ path ∈ (write run).touched w
  flush_filesWritten : ∀ run f w, (write run).filesWritten ((write run).flush f w).2 = (write run).filesWritten w

/-- Files noted at the end of a `write`: those noted before and those it touched. -/
theorem mem_noted {α β : Type} (path : α → β) (written touched : List α) [DecidablePred (· ∉ written)] (x : β) :
    x ∈ (written ++ touched.filter (· ∉ written)).map path ↔ x ∈ written.map path ∨ x ∈ touched.map path := by
  simp only [List.mem_map, List.mem_append, List.mem_filter, decide_eq_true_eq]
  constructor
  · rintro ⟨p, hp | ⟨hp, -⟩, rfl⟩
    · exact .inl ⟨p, hp, rfl⟩
    · exact .inr ⟨p, hp, rfl⟩
  · rintro (⟨p, hp, rfl⟩ | ⟨p, hp, rfl⟩)
    · exact ⟨p, .inl hp, rfl⟩
    · by_cases hw : p ∈ written
      · exact ⟨p, .inl hw, rfl⟩
      · exact ⟨p, .inr ⟨hp, hw⟩, rfl⟩

theorem mem_touch {α : Type} (p q : α) (touched : List α) [Decidable (p ∈ touched)] :
    q ∈ (if p ∈ touched then touched else touched ++ [p]) ↔ q ∈ touched ∨ q = p := by
  by_cases hp : p ∈ touched
  · rw [if_pos hp]
    exact ⟨.inl, fun h => h.elim id fun heq => heq ▸ hp⟩
  · rw [if_neg hp, List.mem_append, List.mem_singleton]

namespace ParquetStore

variable {D E : Type} [DecidableEq D]

/-- Buckets that could all be appended touched their parts. -/
theorem appendBuckets_touched (faults : ParquetFaults) (run : String) (bs : List (D × List E)) :
    ∀ {s t : ParquetStore D E} {k : Nat} {written touched : List (PartName D)},
      appendBuckets faults run s k bs written = (.ok touched, t) →
      ∀ p, p ∈ touched ↔ p ∈ written ∨ ∃ b ∈ bs, (b.1, run) = p := by
  induction bs with
  | nil =>
    intro s t k written touched h p
    cases h
    simp
  | cons b bs ih =>
    intro s t k written touched h p
    obtain ⟨d, bucket⟩ := b
    rw [appendBuckets] at h
    split at h
    · cases h
    · rw [ih h p, mem_touch, or_assoc]
      simp only [List.exists_mem_cons_iff, eq_comm]

/-- The Parquet store of a pipeline; `path` renders a part's path. -/
def shared (c : ParquetConfig D E) (path : PartName D → String) :
    SharedStore E ParquetFaults (ParquetStore D E) (ParquetWrite D E) where
  write run := events c run path
  opens s := { store := s }
  leaves w := w.store
  recordsWritten s := s.recordsWritten
  filesWritten s := s.filesWritten.map path
  file run e := path (c.partition e, safeRun c run)
  opens_recordsWritten _ _ := rfl
  opens_filesWritten _ _ := rfl
  opens_touched _ _ := rfl
  leaves_recordsWritten _ _ := rfl
  leaves_filesWritten _ _ := rfl
  leaves_opens _ := rfl
  writeBatch_touched run faults w batch h := by
    revert h
    dsimp only [events]
    unfold writeBatch
    dsimp only
    intro h x
    split at h
    · cases h
    · next touched store hb =>
      have htouched := appendBuckets_touched faults (safeRun c run) (groupBy c.partition batch) hb
      have hkeys := (grouped_groupBy c.partition batch).2.2
      simp only [List.mem_map] at hkeys ⊢
      constructor
      · rintro ⟨p, hp, rfl⟩
        rcases (htouched p).1 hp with hp | ⟨b, hbucket, rfl⟩
        · exact .inl ⟨p, hp, rfl⟩
        · obtain ⟨e, he, hkey⟩ := (hkeys b.1).1 ⟨b, hbucket, rfl⟩
          exact .inr ⟨e, he, by rw [hkey]⟩
      · rintro (⟨p, hp, rfl⟩ | ⟨e, he, rfl⟩)
        · exact ⟨p, (htouched p).2 (.inl hp), rfl⟩
        · obtain ⟨b, hbucket, hkey⟩ := (hkeys (c.partition e)).2 ⟨e, he, rfl⟩
          exact ⟨_, (htouched _).2 (.inr ⟨b, hbucket, by rw [hkey]⟩), rfl⟩
  writeBatch_filesWritten run faults w batch := by
    have hb := congrArg Prod.snd (appendBuckets_counters faults (safeRun c run) (groupBy c.partition batch) w.store w.bucket w.touched)
    dsimp only [events]
    unfold writeBatch
    dsimp only
    split <;> next h =>
      rw [h] at hb
      exact congrArg (List.map path) hb
  finish_touched _ _ := rfl
  finish_filesWritten _ w x := mem_noted path w.store.filesWritten w.touched x
  flush_filesWritten _ _ _ := rfl

end ParquetStore

namespace TextStore

variable {D E : Type} [DecidableEq D]

theorem writeEvent_filesWritten (c : TextConfig D E) (fault : Option (LineStep × Exn)) (s : TextStore D E)
    (path : PartName D) (event : E) : (writeEvent c fault s path event).2.filesWritten = s.filesWritten := by
  have ho := congrArg Prod.snd (handleFor_counters c fault s path)
  revert ho
  unfold writeEvent
  rcases handleFor c fault s path with ⟨_ | _, t⟩
  · exact id
  · intro ho
    dsimp only
    split
    · exact ho
    · cases c.format with
      | csv => exact ho
      | jsonl =>
        dsimp only
        split
        · split <;> exact ho
        · exact ho

theorem writeEvents_filesWritten (c : TextConfig D E) (run : String) (faults : TextFaults) (xs : List E) :
    ∀ w : TextWrite D E, (writeEvents c run faults w xs).2.store.filesWritten = w.store.filesWritten := by
  induction xs with
  | nil => intro w; rfl
  | cons x xs ih =>
    intro w
    have hx := writeEvent_filesWritten c faults.line w.store (c.partition x, run) x
    rw [writeEvents]
    split
    · next h => rw [h] at hx; exact hx
    · next h => rw [h] at hx; rw [ih]; exact hx

/-- Events that could all be written touched their files. -/
theorem writeEvents_touched (c : TextConfig D E) (run : String) (faults : TextFaults) (xs : List E) :
    ∀ {w v : TextWrite D E}, writeEvents c run faults w xs = (.ok (), v) →
      ∀ p, p ∈ v.touched ↔ p ∈ w.touched ∨ ∃ e ∈ xs, (c.partition e, run) = p := by
  induction xs with
  | nil =>
    intro w v h p
    cases h
    simp
  | cons x xs ih =>
    intro w v h p
    rw [writeEvents] at h
    split at h
    · cases h
    · rw [ih h p, mem_touch, or_assoc]
      simp only [List.exists_mem_cons_iff, eq_comm]

theorem flush_filesWritten (faults : TextFaults) (s : TextStore D E) : (flush faults s).2.filesWritten = s.filesWritten := by
  unfold flush
  split <;> rfl

/-- The JSONL or CSV store of a pipeline. -/
def shared (c : TextConfig D E) (path : PartName D → String) :
    SharedStore E TextFaults (TextStore D E) (TextWrite D E) where
  write run := events c run path
  opens s := { store := s }
  leaves w := w.store
  recordsWritten s := s.recordsWritten
  filesWritten s := s.filesWritten.map path
  file run e := path (c.partition e, safeRun c run)
  opens_recordsWritten _ _ := rfl
  opens_filesWritten _ _ := rfl
  opens_touched _ _ := rfl
  leaves_recordsWritten _ _ := rfl
  leaves_filesWritten _ _ := rfl
  leaves_opens _ := rfl
  writeBatch_touched run faults w batch h x := by
    have hw : writeEvents c (safeRun c run) faults w batch = (.ok (), (writeEvents c (safeRun c run) faults w batch).2) :=
      Prod.ext h rfl
    have htouched := writeEvents_touched c (safeRun c run) faults batch hw
    dsimp only [events]
    simp only [List.mem_map, htouched]
    constructor
    · rintro ⟨p, hp | ⟨e, he, rfl⟩, rfl⟩
      · exact .inl ⟨p, hp, rfl⟩
      · exact .inr ⟨e, he, rfl⟩
    · rintro (⟨p, hp, rfl⟩ | ⟨e, he, rfl⟩)
      · exact ⟨p, .inl hp, rfl⟩
      · exact ⟨_, .inr ⟨e, he, rfl⟩, rfl⟩
  writeBatch_filesWritten run faults w batch :=
    congrArg (List.map path) (writeEvents_filesWritten c (safeRun c run) faults batch w)
  finish_touched _ _ := rfl
  finish_filesWritten _ w x := mem_noted path w.store.filesWritten w.touched x
  flush_filesWritten _ faults w := congrArg (List.map path) (flush_filesWritten faults w.store)

end TextStore

end LogAnalytics
