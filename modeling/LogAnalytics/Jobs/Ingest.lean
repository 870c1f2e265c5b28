import Mathlib.Data.Multiset.OrderedMonoid
import LogAnalytics.Pipeline.Conservation
import LogAnalytics.Pipeline.Simulation
import LogAnalytics.Storage.ParquetEffects
/-!
# The ingest job

`ingest_job` runs the pipeline once under a run id of its own; `JobQueue` calls it again while
it raises. A run's files are named after its run id, so what a call publishes stands beside
what earlier calls have published, and none of its files replaces one of theirs.
-/
open LogAnalytics.Lib

namespace LogAnalytics

/-- The run a file belongs to. -/
def DataPath.run {D : Type} : DataPath D → String
  | .final p | .temp p => p.2

namespace ParquetStore

variable {D E : Type} [DecidableEq D]

/-- The store `s` is the store `t` with the files of `base`, none of the run, beside its own. -/
structure Beside (base : Files (DataPath D) (ParquetFile E)) (run : String) (s t : ParquetStore D E) : Prop where
  rest : t = { s with files := t.files }
  own : ∀ w ∈ s.writers, w.2 = run
  files : Files.Beside base (fun p => p.run = run) s.files t.files

variable {base : Files (DataPath D) (ParquetFile E)} {run : String} {s t : ParquetStore D E}

theorem openWriter_beside (h : Beside base run s t) (fault : Option (AppendStep × Exn)) (d : D) :
    (openWriter fault s (d, run)).1 = (openWriter fault t (d, run)).1 ∧
      Beside base run (openWriter fault s (d, run)).2 (openWriter fault t (d, run)).2 := by
  obtain ⟨hrest, hown, hfiles⟩ := h
  have hwriters : t.writers = s.writers := by rw [hrest]
  have hopened : Beside base run
      { s with writers := s.writers ++ [(d, run)], files := s.files.insert (.temp (d, run)) {} }
      { t with writers := t.writers ++ [(d, run)], files := t.files.insert (.temp (d, run)) {} } := by
    refine ⟨by rw [hrest], ?_, hfiles.insert rfl _⟩
    intro w hw
    rcases List.mem_append.1 hw with hw | hw
    · exact hown w hw
    · rw [List.mem_singleton.1 hw]
  unfold openWriter
  rw [hwriters]
  split
  · exact ⟨rfl, hrest, hown, hfiles⟩
  · rw [hwriters] at hopened
    split
    · exact ⟨rfl, hrest, hown, hfiles⟩
    · exact ⟨rfl, hrest, hown, hfiles⟩
    · exact ⟨rfl, hopened⟩

theorem addRows_beside {fs fs' : Files (DataPath D) (ParquetFile E)}
    (h : Files.Beside base (fun p => p.run = run) fs fs') (d : D) (events : List E) :
    Files.Beside base (fun p => p.run = run) (addRows fs (d, run) events) (addRows fs' (d, run) events) := by
  unfold addRows
  rw [h.same (.temp (d, run)) rfl]
  split
  · exact h
  · exact h.insert rfl _

theorem append_beside (h : Beside base run s t) (fault : Option (AppendStep × Exn)) (d : D) (events : List E) :
    (append fault s (d, run) events).1 = (append fault t (d, run) events).1 ∧
      Beside base run (append fault s (d, run) events).2 (append fault t (d, run) events).2 := by
  obtain ⟨hr, ho⟩ := openWriter_beside h fault d
  unfold append
  rcases hs : openWriter fault s (d, run) with ⟨r, u⟩
  rcases ht : openWriter fault t (d, run) with ⟨r', u'⟩
  rw [hs, ht] at hr ho
  dsimp only at hr ho
  subst hr
  rcases r with exn | ⟨⟩
  · exact ⟨rfl, ho⟩
  · have hadded : Beside base run { u with files := addRows u.files (d, run) events }
        { u' with files := addRows u'.files (d, run) events } :=
      ⟨by rw [ho.rest], ho.own, addRows_beside ho.files d events⟩
    dsimp only
    split
    · exact ⟨rfl, ho⟩
    · exact ⟨rfl, ho⟩
    · exact ⟨rfl, ho⟩
    · exact ⟨rfl, hadded⟩

theorem appendBuckets_beside (faults : ParquetFaults) (bs : List (D × List E)) :
    ∀ {s t : ParquetStore D E} (k : Nat) (written : List (PartName D)), Beside base run s t →
      (appendBuckets faults run s k bs written).1 = (appendBuckets faults run t k bs written).1 ∧
        Beside base run (appendBuckets faults run s k bs written).2 (appendBuckets faults run t k bs written).2 := by
  induction bs with
  | nil => exact fun _ _ h => ⟨rfl, h⟩
  | cons b bs ih =>
    intro s t k written h
    obtain ⟨d, bucket⟩ := b
    obtain ⟨hr, ha⟩ := append_beside h (faults.append k) d bucket
    rw [appendBuckets, appendBuckets]
    rcases hs : append (faults.append k) s (d, run) bucket with ⟨r, u⟩
    rcases ht : append (faults.append k) t (d, run) bucket with ⟨r', u'⟩
    rw [hs, ht] at hr ha
    dsimp only at hr ha
    subst hr
    rcases r with exn | ⟨⟩
    · exact ⟨rfl, ha⟩
    · exact ih _ _ ha

theorem finalise_beside {fs fs' : Files (DataPath D) (ParquetFile E)}
    (h : Files.Beside base (fun p => p.run = run) fs fs') (fault : Option (FinaliseStep × Exn)) (d : D) :
    (finalise fault fs (d, run)).1 = (finalise fault fs' (d, run)).1 ∧
      Files.Beside base (fun p => p.run = run) (finalise fault fs (d, run)).2 (finalise fault fs' (d, run)).2 := by
  have hcomplete : Files.Beside base (fun p => p.run = run) (complete fs (d, run)) (complete fs' (d, run)) := by
    unfold complete
    rw [h.same (.temp (d, run)) rfl]
    split
    · exact h
    · exact h.insert rfl _
  have hreplace : ∀ {gs gs' : Files (DataPath D) (ParquetFile E)}, Files.Beside base (fun p => p.run = run) gs gs' →
      (replace fault gs (d, run)).1 = (replace fault gs' (d, run)).1 ∧
        Files.Beside base (fun p => p.run = run) (replace fault gs (d, run)).2 (replace fault gs' (d, run)).2 := by
    intro gs gs' hg
    unfold replace
    split
    · exact ⟨rfl, hg⟩
    · exact ⟨rfl, hg.rename rfl rfl⟩
  unfold finalise
  split
  · exact ⟨rfl, h⟩
  · dsimp only
    split
    · exact ⟨rfl, hcomplete⟩
    · rw [hcomplete.same (.temp (d, run)) rfl, hcomplete.same (.final (d, run)) rfl]
      split
      · exact ⟨rfl, hcomplete⟩
      · split
        · exact hreplace hcomplete
        · split
          · exact ⟨rfl, hcomplete⟩
          · exact hreplace (hcomplete.erase rfl)

theorem flushWriters_beside (faults : ParquetFaults) (ws : List (PartName D)) :
    ∀ {fs fs' : Files (DataPath D) (ParquetFile E)} (k : Nat) (errors : List String), (∀ w ∈ ws, w.2 = run) →
      Files.Beside base (fun p => p.run = run) fs fs' →
      (flushWriters faults k fs ws errors).1 = (flushWriters faults k fs' ws errors).1 ∧
        Files.Beside base (fun p => p.run = run) (flushWriters faults k fs ws errors).2.1
          (flushWriters faults k fs' ws errors).2.1 ∧
        (flushWriters faults k fs ws errors).2.2 = (flushWriters faults k fs' ws errors).2.2 ∧
        ∀ w ∈ (flushWriters faults k fs ws errors).2.2, w.2 = run := by
  induction ws with
  | nil => exact fun _ _ _ h => ⟨rfl, h, rfl, by simp [flushWriters]⟩
  | cons path ws ih =>
    intro fs fs' k errors hown h
    obtain ⟨hpath, hws⟩ := List.forall_mem_cons.1 hown
    obtain ⟨d, run'⟩ := path
    dsimp only at hpath
    subst hpath
    obtain ⟨hr, hf⟩ := finalise_beside h (faults.finalise k) d
    rw [flushWriters, flushWriters]
    rcases hs : finalise (faults.finalise k) fs (d, run') with ⟨r, gs⟩
    rcases ht : finalise (faults.finalise k) fs' (d, run') with ⟨r', gs'⟩
    rw [hs, ht] at hr hf
    dsimp only at hr hf
    subst hr
    rcases r with exn | ⟨⟩
    · dsimp only
      split
      · exact ih _ _ hws hf
      · exact ⟨rfl, hf, rfl, hws⟩
    · exact ih _ _ hws hf

/-- The write of a run, on stores that are the same but for the files of `base`. -/
structure WriteBeside (base : Files (DataPath D) (ParquetFile E)) (run : String) (s t : ParquetWrite D E) : Prop where
  rest : t = { s with store := t.store }
  store : Beside base run s.store t.store

/-- A run goes on the same whatever files of other runs there are. -/
theorem events_simulation (base : Files (DataPath D) (ParquetFile E)) (c : ParquetConfig D E) (runId : String)
    (path : PartName D → String) :
    (events c runId path).Simulation (WriteBeside base (safeRun c runId)) where
  writeBatch faults s t batch h := by
    obtain ⟨hrest, hstore⟩ := h
    have hbucket : t.bucket = s.bucket := by rw [hrest]
    have htouched : t.touched = s.touched := by rw [hrest]
    obtain ⟨hr, hb⟩ := appendBuckets_beside faults (groupBy c.partition batch) s.bucket s.touched hstore
    change (writeBatch c (safeRun c runId) faults s batch).1 = (writeBatch c (safeRun c runId) faults t batch).1 ∧
      WriteBeside base (safeRun c runId) (writeBatch c (safeRun c runId) faults s batch).2
        (writeBatch c (safeRun c runId) faults t batch).2
    unfold writeBatch
    rw [hbucket, htouched]
    dsimp only
    rcases hs : appendBuckets faults (safeRun c runId) s.store s.bucket (groupBy c.partition batch) s.touched with ⟨r, u⟩
    rcases ht : appendBuckets faults (safeRun c runId) t.store s.bucket (groupBy c.partition batch) s.touched with ⟨r', u'⟩
    rw [hs, ht] at hr hb
    dsimp only at hr hb
    subst hr
    cases r with
    | error exn => exact ⟨rfl, rfl, hb⟩
    | ok touched =>
      refine ⟨rfl, rfl, ?_, hb.own, hb.files⟩
      dsimp only
      rw [hb.rest]
  finish s t h := by
    obtain ⟨hrest, hstore⟩ := h
    have htouched : t.touched = s.touched := by rw [hrest]
    refine ⟨?_, ?_, hstore.own, hstore.files⟩
    · change finish t = { finish s with store := (finish t).store }
      rw [hrest]
      rfl
    · change (finish t).store = { (finish s).store with files := (finish t).store.files }
      unfold finish
      rw [htouched, hstore.rest]
  flush faults s t h := by
    obtain ⟨hrest, hstore⟩ := h
    have hwriters : t.store.writers = s.store.writers := by rw [hstore.rest]
    obtain ⟨hr, hf, hws, hown⟩ := flushWriters_beside faults s.store.writers 0 [] hstore.own hstore.files
    rw [← hwriters] at hr hf hws
    refine ⟨by simpa [events, flush, hwriters] using hr, ?_, ?_, ?_, ?_⟩
    · rw [hrest]
      rfl
    · simp only [events, flush, hwriters] at hws ⊢
      rw [hws, hstore.rest]
    · simpa only [events, flush] using hown
    · simpa only [events, flush, hwriters] using hf
  recordsWritten s t h := by
    have hstore := h.store.rest
    change s.store.recordsWritten = t.store.recordsWritten
    rw [hstore]
  touched s t h := by
    have hrest := h.rest
    change s.touched.map path = t.touched.map path
    rw [hrest]
  filesWritten s t h := by
    have hstore := h.store.rest
    change s.store.filesWritten.map path = t.store.filesWritten.map path
    rw [hstore]

end ParquetStore

/-! ## The job and its queue -/

/-- One call of `ingest_job`: the run id its options draw, and what happens around the run. -/
structure IngestCall (R τ : Type) where
  /-- `uuid.uuid4().hex[:16]` -/
  runId : String
  /-- What is raised before the run: by the settings, the path check or the metadata store. -/
  prepareRaises : Option Exn := none
  run : LogPipeline.Run R ParquetFaults τ
  /-- What is raised behind the run: by the metadata store or the cache. -/
  recordRaises : Option Exn := none

/-- What every call of a job has in common. -/
structure IngestJob (R E K P D τ : Type) where
  stages : Stages R E K P τ
  store : ParquetConfig D E
  path : PartName D → String
  options : PipelineOptions
  threshold : ℚ
  context : ParseContext
  seen : SeenKeys K

namespace IngestJob

variable {R E K P D τ : Type} [DecidableEq D] [DecidableEq K]

/-- The files of the layer. -/
abbrev Layer (D E : Type) := Files (DataPath D) (ParquetFile E)

/-- What the run of a call starts from. -/
def start (j : IngestJob R E K P D τ) (files : Layer D E) : PipelineState E K P (ParquetWrite D E) τ :=
  LogPipeline.start j.context {} j.seen { store := { files := files } }

/-- `ingest_job` -/
def ingestJob (j : IngestJob R E K P D τ) (call : IngestCall R τ) (files : Layer D E) :
    Except Exn PipelineResult × Layer D E :=
  match call.prepareRaises with
  | some exn => (.error exn, files)
  | none =>
    let (r, s) := LogPipeline.run j.stages (ParquetStore.events j.store call.runId j.path) j.options j.threshold call.run
      (j.start files)
    match r, call.recordRaises with
    | .ok _, some exn => (.error exn, s.store.store.files)
    | r, _ => (r, s.store.store.files)

/-- The name a call gives its files. -/
def runOf (j : IngestJob R E K P D τ) (call : IngestCall R τ) : String := ParquetStore.safeRun j.store call.runId

/-- The calls have run ids of their own, under which the layer has no file. -/
structure Fresh (j : IngestJob R E K P D τ) (files : Layer D E) (calls : List (IngestCall R τ)) : Prop where
  nodup : (calls.map j.runOf).Nodup
  unused : ∀ call ∈ calls, ∀ p : DataPath D, p.run = j.runOf call → files.lookup p = none

/-- The records in the layer. -/
def records (files : Layer D E) : Multiset E := files.total ParquetStore.readable

/-- What a call publishes: the records it leaves in an empty layer. -/
def published (j : IngestJob R E K P D τ) (call : IngestCall R τ) : Multiset E := records (j.ingestJob call ∅).2

/-- A call leaves the files of other runs, and adds its own beside them. -/
theorem ingestJob_beside (j : IngestJob R E K P D τ) (call : IngestCall R τ) {files : Layer D E}
    (hunused : ∀ p : DataPath D, p.run = j.runOf call → files.lookup p = none) :
    (j.ingestJob call files).1 = (j.ingestJob call ∅).1 ∧
      Files.Beside files (fun p => p.run = j.runOf call) (j.ingestJob call files).2 (j.ingestJob call ∅).2 := by
  have hempty : Files.Beside files (fun p : DataPath D => p.run = j.runOf call) files ∅ :=
    ⟨hunused, fun _ _ => rfl, fun _ _ => rfl⟩
  have hstart : LogPipeline.SameBut (ParquetStore.WriteBeside files (j.runOf call)) (j.start files) (j.start ∅) :=
    ⟨{ store := { files := ∅ } }, rfl, rfl, rfl, by simp [start, LogPipeline.start], hempty⟩
  obtain ⟨hr, x, hx, hrun⟩ := LogPipeline.run_alike
    (ParquetStore.events_simulation files j.store call.runId j.path) j.stages j.options j.threshold call.run hstart
  unfold ingestJob
  cases call.prepareRaises with
  | some exn => exact ⟨rfl, hempty⟩
  | none =>
    dsimp only
    rw [hr, hx]
    split
    · exact ⟨rfl, hrun.store.files⟩
    · exact ⟨rfl, hrun.store.files⟩

theorem Fresh.tail {j : IngestJob R E K P D τ} {files : Layer D E} {call : IngestCall R τ} {calls : List (IngestCall R τ)}
    (h : j.Fresh files (call :: calls)) : j.Fresh (j.ingestJob call files).2 calls := by
  obtain ⟨hcall, hnodup⟩ := List.nodup_cons.1 h.nodup
  obtain ⟨-, hbeside⟩ := j.ingestJob_beside call (h.unused call List.mem_cons_self)
  refine ⟨hnodup, fun c hc p hp => ?_⟩
  have hne : ¬ p.run = j.runOf call := fun he => hcall (he ▸ hp ▸ List.mem_map_of_mem hc)
  rw [hbeside.base p hne]
  exact h.unused c (List.mem_cons_of_mem _ hc) p hp

/-- A call on a file with one line; nothing raises. -/
def lineCall (runId : String) : IngestCall Unit Unit where
  runId := runId
  run := { records := [({ payload := .text (Text.ofString "boot") }, { now := (), store := {} })], lastBatch := {}, flush := {} }

end IngestJob

end LogAnalytics
