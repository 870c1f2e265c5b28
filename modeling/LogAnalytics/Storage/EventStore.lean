import LogAnalytics.Storage.Text
/-!
# Writing a stream of events

`StorageBackend.write` pulls its events one at a time from the pipeline and writes a batch
when it is full: `push` is what happens between two pulls, `drain` when the events end. An
`EventStore` carries the law its counter obeys, whatever the files do. For `ParquetStore`
pushing a list and draining is `write` on that list.
-/
open LogAnalytics.Lib

namespace LogAnalytics

structure EventStore (E F σ : Type) where
  batchSize : Nat
  writeBatch : F → σ → List E → Except Exn Unit × σ
  /-- The end of `write`: the files it touched are `files_written`. -/
  finish : σ → σ
  flush : F → σ → Except Exn Unit × σ
  recordsWritten : σ → Nat
  /-- The files the current `write` touched. -/
  touched : σ → List String
  filesWritten : σ → List String
  writeBatch_counts : ∀ f s batch, (writeBatch f s batch).1 = .ok () →
    recordsWritten (writeBatch f s batch).2 = recordsWritten s + batch.length
  finish_counts : ∀ s, recordsWritten (finish s) = recordsWritten s
  flush_counts : ∀ f s, recordsWritten (flush f s).2 = recordsWritten s

namespace EventStore

variable {E F σ : Type}

/-- One more event; a full batch is written. -/
def push (es : EventStore E F σ) (f : F) (s : σ) (batch : List E) (event : E) : Except Exn Unit × σ × List E :=
  let batch := batch ++ [event]
  if es.batchSize ≤ batch.length then
    let (r, s) := es.writeBatch f s batch
    (r, s, [])
  else (.ok (), s, batch)

/-- The events have ended; what is left is written. -/
def drain (es : EventStore E F σ) (f : F) (s : σ) (batch : List E) : Except Exn Unit × σ :=
  if batch.isEmpty then (.ok (), s) else es.writeBatch f s batch

/-- A push that returns adds one event to those written or waiting. -/
theorem push_counts {es : EventStore E F σ} {f : F} {s t : σ} {batch batch' : List E} {event : E}
    (h : es.push f s batch event = (.ok (), t, batch')) :
    es.recordsWritten t + batch'.length = es.recordsWritten s + batch.length + 1 := by
  unfold push at h
  dsimp only at h
  split at h
  · simp only [Prod.mk.injEq] at h
    obtain ⟨hr, rfl, rfl⟩ := h
    rw [es.writeBatch_counts _ _ _ hr, List.length_append, List.length_singleton, List.length_nil]
    omega
  · cases h
    rw [List.length_append, List.length_singleton]
    omega

theorem drain_counts {es : EventStore E F σ} {f : F} {s t : σ} {batch : List E} (h : es.drain f s batch = (.ok (), t)) :
    es.recordsWritten t = es.recordsWritten s + batch.length := by
  unfold drain at h
  split at h
  · next he =>
    cases h
    rw [List.isEmpty_iff.1 he, List.length_nil, Nat.add_zero]
  · rw [← es.writeBatch_counts f s batch (by rw [h]), h]

/-- Push a list of events, then drain and finish. -/
def writeAll (es : EventStore E F σ) (f : F) : σ → List E → List E → Except Exn Unit × σ
  | s, batch, [] =>
    match es.drain f s batch with
    | (.error exn, s) => (.error exn, s)
    | (.ok (), s) => (.ok (), es.finish s)
  | s, batch, event :: rest =>
    match es.push f s batch event with
    | (.error exn, s, _) => (.error exn, s)
    | (.ok (), s, batch) => writeAll es f s batch rest

end EventStore

/-! ## Parquet -/

/-- A Parquet store inside a call of `write`: the buckets appended so far and the files touched. -/
structure ParquetWrite (D E : Type) where
  store : ParquetStore D E
  bucket : Nat := 0
  touched : List (PartName D) := []

namespace ParquetStore

variable {D E : Type} [DecidableEq D]

/-- What only the end of a batch and of a call change. -/
def counters (s : ParquetStore D E) : Nat × List (PartName D) := (s.recordsWritten, s.filesWritten)

theorem openWriter_counters (fault : Option (AppendStep × Exn)) (s : ParquetStore D E) (path : PartName D) :
    counters (openWriter fault s path).2 = counters s := by
  unfold openWriter
  split
  · rfl
  · split <;> rfl

theorem append_counters (fault : Option (AppendStep × Exn)) (s : ParquetStore D E) (path : PartName D)
    (events : List E) : counters (append fault s path events).2 = counters s := by
  have ho := openWriter_counters fault s path
  unfold append
  split
  · next h => rw [h] at ho; exact ho
  · next h =>
    rw [h] at ho
    split <;> exact ho

theorem appendBuckets_counters (faults : ParquetFaults) (run : String) (bs : List (D × List E)) :
    ∀ (s : ParquetStore D E) (k : Nat) (written : List (PartName D)),
      counters (appendBuckets faults run s k bs written).2 = counters s := by
  induction bs with
  | nil => intro s k written; rfl
  | cons b bs ih =>
    intro s k written
    obtain ⟨d, bucket⟩ := b
    have ha := append_counters (faults.append k) s (d, run) bucket
    rw [appendBuckets]
    split
    · next h => rw [h] at ha; exact ha
    · next h =>
      rw [h] at ha
      rw [ih]
      exact ha

/-- The body of the loop of `write`. -/
def writeBatch (c : ParquetConfig D E) (run : String) (faults : ParquetFaults) (s : ParquetWrite D E) (batch : List E) :
    Except Exn Unit × ParquetWrite D E :=
  let buckets := groupBy c.partition batch
  match appendBuckets faults run s.store s.bucket buckets s.touched with
  | (.error exn, store) => (.error exn, { s with store := store })
  | (.ok touched, store) =>
    (.ok (), { store := { store with recordsWritten := store.recordsWritten + batch.length }
               bucket := s.bucket + buckets.length
               touched := touched })

theorem writeBatch_recordsWritten {c : ParquetConfig D E} {run : String} {faults : ParquetFaults} {s : ParquetWrite D E}
    {batch : List E} (h : (writeBatch c run faults s batch).1 = .ok ()) :
    (writeBatch c run faults s batch).2.store.recordsWritten = s.store.recordsWritten + batch.length := by
  have ha := congrArg Prod.fst (appendBuckets_counters faults run (groupBy c.partition batch) s.store s.bucket s.touched)
  revert h
  unfold writeBatch
  dsimp only
  split
  · intro h; cases h
  · next hb =>
    intro _
    rw [hb] at ha
    exact congrArg (· + batch.length) ha

def finish (s : ParquetWrite D E) : ParquetWrite D E :=
  { s with store := { s.store with
      filesWritten := s.store.filesWritten ++ s.touched.filter (· ∉ s.store.filesWritten) } }

/-- The store during the `write` of one run; `path` renders a part's path. -/
def events (c : ParquetConfig D E) (runId : String) (path : PartName D → String) :
    EventStore E ParquetFaults (ParquetWrite D E) where
  batchSize := max 1000 c.batchSize
  writeBatch := writeBatch c (safeRun c runId)
  finish := finish
  flush faults s :=
    let (r, store) := flush faults s.store
    (r, { s with store := store })
  recordsWritten s := s.store.recordsWritten
  touched s := s.touched.map path
  filesWritten s := s.store.filesWritten.map path
  writeBatch_counts _ _ _ h := writeBatch_recordsWritten h
  finish_counts _ := rfl
  flush_counts _ _ := rfl

/-- The loop of `write` runs `writeBatch` once for each batch. -/
theorem writeBatches_cons (c : ParquetConfig D E) (faults : ParquetFaults) (run : String) (s : ParquetWrite D E)
    (batch : List E) (rest : List (List E)) :
    writeBatches c faults run s.store s.bucket (batch :: rest) s.touched =
      match writeBatch c run faults s batch with
      | (.error exn, t) => (.error exn, t.store)
      | (.ok (), t) => writeBatches c faults run t.store t.bucket rest t.touched := by
  rw [writeBatches, writeBatch]
  rcases appendBuckets faults run s.store s.bucket (groupBy c.partition batch) s.touched with ⟨_ | _, _⟩ <;> rfl

/-- Pushing the events one by one is `write` on all of them. -/
theorem writeAll_eq_write (c : ParquetConfig D E) (faults : ParquetFaults) (runId : String) (path : PartName D → String)
    (xs : List E) : ∀ (s : ParquetWrite D E) (batch : List E),
      let all := (events c runId path).writeAll faults s batch xs
      let batches := batchedFrom (max 1000 c.batchSize) batch xs
      let written := writeBatches c faults (safeRun c runId) s.store s.bucket batches s.touched
      all.1 = written.1.map (fun _ => ()) ∧ all.2.store = written.2 := by
  induction xs with
  | nil =>
    intro s batch
    dsimp only
    rw [EventStore.writeAll, EventStore.drain, batchedFrom]
    by_cases he : batch = []
    · rw [if_pos (List.isEmpty_iff.2 he), if_pos he]
      exact ⟨rfl, rfl⟩
    · rw [if_neg (by rwa [List.isEmpty_iff]), if_neg he, writeBatches_cons]
      simp only [events]
      rcases writeBatch c (safeRun c runId) faults s batch with ⟨_ | _, _⟩ <;> exact ⟨rfl, rfl⟩
  | cons x xs ih =>
    intro s batch
    dsimp only
    rw [EventStore.writeAll, batchedFrom]
    by_cases hfull : max 1000 c.batchSize ≤ (batch ++ [x]).length
    · have hpush : (events c runId path).push faults s batch x =
          ((writeBatch c (safeRun c runId) faults s (batch ++ [x])).1,
            (writeBatch c (safeRun c runId) faults s (batch ++ [x])).2, []) := if_pos hfull
      rw [hpush, if_pos hfull, writeBatches_cons]
      rcases writeBatch c (safeRun c runId) faults s (batch ++ [x]) with ⟨_ | _, t⟩
      · exact ⟨rfl, rfl⟩
      · exact ih t []
    · have hpush : (events c runId path).push faults s batch x = (.ok (), s, batch ++ [x]) := if_neg hfull
      rw [hpush, if_neg hfull]
      exact ih s (batch ++ [x])

/-- A `write` on a fresh call: the store and the result `ParquetStore.write` gives. -/
theorem writeAll_nil (c : ParquetConfig D E) (faults : ParquetFaults) (runId : String) (path : PartName D → String)
    (store : ParquetStore D E) (xs : List E) :
    let all := (events c runId path).writeAll faults { store := store } [] xs
    all.1 = (write c faults store xs runId).1.map (fun _ => ()) ∧ all.2.store = (write c faults store xs runId).2 :=
  writeAll_eq_write c faults runId path xs { store := store } []

end ParquetStore

/-! ## JSONL and CSV -/

/-- A text store inside a call of `write`. -/
structure TextWrite (D E : Type) where
  store : TextStore D E
  touched : List (PartName D) := []

namespace TextStore

variable {D E : Type} [DecidableEq D]

/-- The loop of `write` over events that come one at a time. -/
def writeEvents (c : TextConfig D E) (run : String) (faults : TextFaults) :
    TextWrite D E → List E → Except Exn Unit × TextWrite D E
  | s, [] => (.ok (), s)
  | s, event :: rest =>
    let path := (c.partition event, run)
    match writeEvent c faults.line s.store path event with
    | (.error exn, store) => (.error exn, { s with store := store })
    | (.ok (), store) =>
      writeEvents c run faults ⟨store, if path ∈ s.touched then s.touched else s.touched ++ [path]⟩ rest

theorem writeEvents_recordsWritten {c : TextConfig D E} {run : String} {faults : TextFaults} (xs : List E) :
    ∀ {s t : TextWrite D E}, writeEvents c run faults s xs = (.ok (), t) →
      t.store.recordsWritten = s.store.recordsWritten + xs.length := by
  induction xs with
  | nil => intro s t h; cases h; rfl
  | cons x xs ih =>
    intro s t h
    rw [writeEvents] at h
    split at h
    · cases h
    · next hw =>
      have hx := writeEvent_recordsWritten (congrArg Prod.fst hw)
      rw [hw] at hx
      rw [ih h, hx, List.length_cons]
      omega

/-- `safe_filename(run_id, fallback="adhoc", max_length=48)`. -/
def safeRun (c : TextConfig D E) (runId : String) : String := Paths.safeFilename c.unicode "adhoc" 48 runId

def finish (s : TextWrite D E) : TextWrite D E :=
  { s with store := { s.store with
      filesWritten := s.store.filesWritten ++ s.touched.filter (· ∉ s.store.filesWritten) } }

theorem flush_recordsWritten (faults : TextFaults) (s : TextStore D E) :
    (flush faults s).2.recordsWritten = s.recordsWritten := by
  unfold flush
  split <;> rfl

/-- The store during the `write` of one run: an event is written as soon as it is pulled. -/
def events (c : TextConfig D E) (runId : String) (path : PartName D → String) :
    EventStore E TextFaults (TextWrite D E) where
  batchSize := 1
  writeBatch := writeEvents c (safeRun c runId)
  finish := finish
  flush faults s :=
    let (r, store) := flush faults s.store
    (r, { s with store := store })
  recordsWritten s := s.store.recordsWritten
  touched s := s.touched.map path
  filesWritten s := s.store.filesWritten.map path
  writeBatch_counts faults s batch h := by
    rcases hw : writeEvents c (safeRun c runId) faults s batch with ⟨r, t⟩
    rw [hw] at h
    dsimp only at h
    subst h
    exact writeEvents_recordsWritten batch hw
  finish_counts _ := rfl
  flush_counts faults s := flush_recordsWritten faults s.store

end TextStore

end LogAnalytics
