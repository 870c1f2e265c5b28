import LogAnalytics.Lib.Files
import LogAnalytics.Lib.Group
import LogAnalytics.Paths
import LogAnalytics.Stream.Processor
/-!
# The Parquet store

`ParquetStore.write` and `ParquetStore.flush` over the files of the dataset. A part is the
file one run writes in one partition directory: a hidden temporary file while its writer is
open, published under its final name by `flush`. Each call names what raises during it, file
by file (`ParquetFaults`); a call that raises keeps what it had done.
-/
open LogAnalytics.Lib

namespace LogAnalytics

/-- A partition directory and a run: `part-<run>.parquet` in that directory. -/
abbrev PartName (D : Type) := D × String

instance PartName.lawfulBEq {D : Type} [DecidableEq D] : LawfulBEq (PartName D) := inferInstance

inductive DataPath (D : Type) where
  /-- `part-<run>.parquet` -/
  | final (part : PartName D)
  /-- `.part-<run>.parquet.tmp` -/
  | temp (part : PartName D)
  deriving DecidableEq

/-- Without its footer, which closing the writer adds, a file cannot be read. -/
structure ParquetFile (E : Type) where
  rows : List E := []
  complete : Bool := false

structure ParquetStore (D E : Type) where
  files : Files (DataPath D) (ParquetFile E)
  /-- The final paths of the open writers, in the order they were opened. -/
  writers : List (PartName D) := []
  recordsWritten : Nat := 0
  filesWritten : List (PartName D) := []

/-- What a store is built with; `partition` is the partition directory of an event. -/
structure ParquetConfig (D E : Type) where
  unicode : Unicode
  batchSize : Nat
  partition : E → D

inductive AppendStep where
  | ensureDirectory | openWriter | toRows | toTable | writeTable
  deriving DecidableEq

inductive FinaliseStep where
  | close
  /-- `temp_path.exists()` -/
  | probe
  | unlink | replace
  deriving DecidableEq

/-- What raises during a call: the step of the `k`-th bucket appended, or of the `k`-th
writer closed, if that step is reached. -/
structure ParquetFaults where
  append : Nat → Option (AppendStep × Exn) := fun _ => none
  finalise : Nat → Option (FinaliseStep × Exn) := fun _ => none

namespace ParquetStore

variable {D E : Type} [DecidableEq D]

/-- The rows a reader sees in one file; readers take the complete `*.parquet` files. -/
def readable : DataPath D → ParquetFile E → Multiset E
  | .final _, f => if f.complete then f.rows else 0
  | .temp _, _ => 0

/-- The rows of the dataset. -/
def visible (s : ParquetStore D E) : Multiset E := s.files.total readable

/-! ## Writing -/

/-- The writer part of `_append`. -/
def openWriter (fault : Option (AppendStep × Exn)) (s : ParquetStore D E) (path : PartName D) :
    Except Exn Unit × ParquetStore D E :=
  if path ∈ s.writers then (.ok (), s)
  else
    match fault with
    | some (.ensureDirectory, exn) => (.error exn, s)
    | some (.openWriter, _) => (.error ⟨.storageError, "failed to open a Parquet writer"⟩, s)
    | _ => (.ok (), { s with writers := s.writers ++ [path], files := s.files.insert (.temp path) {} })

def addRows (files : Files (DataPath D) (ParquetFile E)) (path : PartName D) (events : List E) :
    Files (DataPath D) (ParquetFile E) :=
  match files.lookup (.temp path) with
  | none => files
  | some f => files.insert (.temp path) { f with rows := f.rows ++ events }

/-- The Arrow and value errors `_append` reports as a schema mismatch. -/
def nonConforming (exn : Exn) : Exn :=
  if exn.isValueError ∨ exn.cls = .other "ArrowTypeError" then
    ⟨.storageError, "record batch does not conform to the storage schema"⟩
  else exn

/-- `_append`: add the events to the part, opening its writer first when there is none. -/
def append (fault : Option (AppendStep × Exn)) (s : ParquetStore D E) (path : PartName D) (events : List E) :
    Except Exn Unit × ParquetStore D E :=
  match openWriter fault s path with
  | (.error exn, s) => (.error exn, s)
  | (.ok (), s) =>
    match fault with
    | some (.toRows, exn) => (.error exn, s)
    | some (.toTable, exn) => (.error (nonConforming exn), s)
    | some (.writeTable, exn) => (.error (nonConforming exn), s)
    | _ => (.ok (), { s with files := addRows s.files path events })

/-- The loop over the buckets of one batch; `k` counts the buckets of the call. -/
def appendBuckets (faults : ParquetFaults) (run : String) :
    ParquetStore D E → Nat → List (D × List E) → List (PartName D) →
      Except Exn (List (PartName D)) × ParquetStore D E
  | s, _, [], written => (.ok written, s)
  | s, k, (directory, bucket) :: rest, written =>
    match append (faults.append k) s (directory, run) bucket with
    | (.error exn, s) => (.error exn, s)
    | (.ok (), s) =>
      let path := (directory, run)
      appendBuckets faults run s (k + 1) rest (if path ∈ written then written else written ++ [path])

/-- The loop of `write` over the batches. -/
def writeBatches (c : ParquetConfig D E) (faults : ParquetFaults) (run : String) :
    ParquetStore D E → Nat → List (List E) → List (PartName D) →
      Except Exn (List (PartName D)) × ParquetStore D E
  | s, _, [], written =>
    (.ok written, { s with filesWritten := s.filesWritten ++ written.filter (· ∉ s.filesWritten) })
  | s, k, batch :: rest, written =>
    let buckets := groupBy c.partition batch
    match appendBuckets faults run s k buckets written with
    | (.error exn, s) => (.error exn, s)
    | (.ok written, s) =>
      writeBatches c faults run { s with recordsWritten := s.recordsWritten + batch.length }
        (k + buckets.length) rest written

/-- `safe_filename(run_id, fallback="adhoc", max_length=48)`. -/
def safeRun (c : ParquetConfig D E) (runId : String) : String := Paths.safeFilename c.unicode "adhoc" 48 runId

/-- Stream events into partitioned Parquet files. -/
def write (c : ParquetConfig D E) (faults : ParquetFaults) (s : ParquetStore D E) (events : List E) (runId : String) :
    Except Exn (List (PartName D)) × ParquetStore D E :=
  writeBatches c faults (safeRun c runId) s 0 (batched (max 1000 c.batchSize) events) []

/-! ## Publishing -/

def complete (files : Files (DataPath D) (ParquetFile E)) (path : PartName D) : Files (DataPath D) (ParquetFile E) :=
  match files.lookup (.temp path) with
  | none => files
  | some f => files.insert (.temp path) { f with complete := true }

def replace (fault : Option (FinaliseStep × Exn)) (files : Files (DataPath D) (ParquetFile E)) (path : PartName D) :
    Except Exn Unit × Files (DataPath D) (ParquetFile E) :=
  match fault with
  | some (.replace, exn) => (.error exn, files)
  | _ => (.ok (), files.rename (.temp path) (.final path))

/-- Close one writer and move its file to its final path. -/
def finalise (fault : Option (FinaliseStep × Exn)) (files : Files (DataPath D) (ParquetFile E)) (path : PartName D) :
    Except Exn Unit × Files (DataPath D) (ParquetFile E) :=
  match fault with
  | some (.close, exn) => (.error exn, files)
  | _ =>
    let files := complete files path
    match fault with
    | some (.probe, exn) => (.error exn, files)
    | _ =>
      if (files.lookup (.temp path)).isNone then (.ok (), files)
      else if (files.lookup (.final path)).isNone then replace fault files path
      else
        match fault with
        | some (.unlink, exn) => (.error exn, files)
        | _ => replace fault (files.erase (.final path)) path

/-- The loop of `flush`: an `OSError` is noted and the next writer closed, any other
exception leaves at once; either way the writer is dropped. -/
def flushWriters (faults : ParquetFaults) :
    Nat → Files (DataPath D) (ParquetFile E) → List (PartName D) → List String →
      Except Exn Unit × Files (DataPath D) (ParquetFile E) × List (PartName D)
  | _, files, [], errors =>
    (if errors = [] then .ok () else .error ⟨.storageError, "failed to finalise Parquet files"⟩, files, [])
  | k, files, path :: rest, errors =>
    match finalise (faults.finalise k) files path with
    | (.ok (), files) => flushWriters faults (k + 1) files rest errors
    | (.error exn, files) =>
      if exn.isOSError then flushWriters faults (k + 1) files rest (errors ++ [exn.msg])
      else (.error exn, files, rest)

/-- Close the writers and publish their files. -/
def flush (faults : ParquetFaults) (s : ParquetStore D E) : Except Exn Unit × ParquetStore D E :=
  let (r, files, writers) := flushWriters faults 0 s.files s.writers []
  (r, { s with files := files, writers := writers })

/-- The store as the stream processor and the pipeline see it. -/
def backend (c : ParquetConfig D E) : StorageBackend E ParquetFaults (ParquetStore D E) where
  write faults s events runId :=
    let (r, s) := write c faults s events runId
    (r.map fun _ => (), s)
  flush := flush

end ParquetStore

end LogAnalytics
