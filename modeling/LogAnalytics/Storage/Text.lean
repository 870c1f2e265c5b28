import LogAnalytics.Storage.Parquet
/-!
# The text stores

`JsonlStore` and `CsvStore`: one append-mode file for each partition, written row by row under
a hidden temporary name and moved to its final path by `flush`. They differ in the header a
CSV file starts with and in when they force their rows to disk.
-/
open LogAnalytics.Lib

namespace LogAnalytics

inductive TextFormat where
  | jsonl | csv
  deriving DecidableEq, Repr

structure TextStore (D E : Type) where
  files : Files (DataPath D) (List E)
  /-- The final paths of the open handles, in the order they were opened. -/
  handles : List (PartName D) := []
  recordsWritten : Nat := 0
  filesWritten : List (PartName D) := []
  sinceFlush : Nat := 0

structure TextConfig (D E : Type) where
  unicode : Unicode
  format : TextFormat
  partition : E → D
  flushEvery : Nat := 1000

inductive LineStep where
  | ensureDirectory | openFile
  /-- `_on_open` -/
  | header
  /-- Rendering the row and writing it. -/
  | row
  | flush
  deriving DecidableEq

/-- What raises while one row is written, or while the `k`-th handle is closed. -/
structure TextFaults where
  line : Option (LineStep × Exn) := none
  finalise : Nat → Option (FinaliseStep × Exn) := fun _ => none

namespace TextStore

variable {D E : Type} [DecidableEq D]

def handleFor (c : TextConfig D E) (fault : Option (LineStep × Exn)) (s : TextStore D E) (path : PartName D) :
    Except Exn Unit × TextStore D E :=
  if path ∈ s.handles then (.ok (), s)
  else
    match fault with
    | some (.ensureDirectory, exn) => (.error exn, s)
    | some (.openFile, exn) =>
      (.error (if exn.isOSError then ⟨.storageError, "failed to open an output file"⟩ else exn), s)
    | _ =>
      let s := { s with handles := s.handles ++ [path], files := s.files.insert (.temp path) [] }
      match fault, c.format with
      | some (.header, exn), .csv => (.error exn, s)
      | _, _ => (.ok (), s)

def addRow (files : Files (DataPath D) (List E)) (path : PartName D) (event : E) : Files (DataPath D) (List E) :=
  match files.lookup (.temp path) with
  | none => files
  | some rows => files.insert (.temp path) (rows ++ [event])

/-- The body of `write` for one event. -/
def writeEvent (c : TextConfig D E) (fault : Option (LineStep × Exn)) (s : TextStore D E) (path : PartName D)
    (event : E) : Except Exn Unit × TextStore D E :=
  match handleFor c fault s path with
  | (.error exn, s) => (.error exn, s)
  | (.ok (), s) =>
    match fault with
    | some (.row, exn) => (.error exn, s)
    | _ =>
      let s := { s with files := addRow s.files path event, recordsWritten := s.recordsWritten + 1 }
      match c.format with
      | .csv => (.ok (), s)
      | .jsonl =>
        let s := { s with sinceFlush := s.sinceFlush + 1 }
        if c.flushEvery ≤ s.sinceFlush then
          match fault with
          | some (.flush, exn) => (.error exn, s)
          | _ => (.ok (), { s with sinceFlush := 0 })
        else (.ok (), s)

def replace (fault : Option (FinaliseStep × Exn)) (files : Files (DataPath D) (List E)) (path : PartName D) :
    Except Exn Unit × Files (DataPath D) (List E) :=
  match fault with
  | some (.replace, exn) => (.error exn, files)
  | _ => (.ok (), files.rename (.temp path) (.final path))

/-- Close one handle and move its file to its final path. -/
def finalise (fault : Option (FinaliseStep × Exn)) (files : Files (DataPath D) (List E)) (path : PartName D) :
    Except Exn Unit × Files (DataPath D) (List E) :=
  match fault with
  | some (.close, exn) => (.error exn, files)
  | some (.probe, exn) => (.error exn, files)
  | _ =>
    if (files.lookup (.temp path)).isNone then (.ok (), files)
    else if (files.lookup (.final path)).isNone then replace fault files path
    else
      match fault with
      | some (.unlink, exn) => (.error exn, files)
      | _ => replace fault (files.erase (.final path)) path

/-- The loop of `flush`: an `OSError` is noted and the next handle closed, any other
exception leaves at once; either way the handle is dropped. -/
def flushHandles (faults : TextFaults) :
    Nat → Files (DataPath D) (List E) → List (PartName D) → List String →
      Except Exn (List String) × Files (DataPath D) (List E) × List (PartName D)
  | _, files, [], errors => (.ok errors, files, [])
  | k, files, path :: rest, errors =>
    match finalise (faults.finalise k) files path with
    | (.ok (), files) => flushHandles faults (k + 1) files rest errors
    | (.error exn, files) =>
      if exn.isOSError then flushHandles faults (k + 1) files rest (errors ++ [exn.msg])
      else (.error exn, files, rest)

/-- Close the handles and publish their files. -/
def flush (faults : TextFaults) (s : TextStore D E) : Except Exn Unit × TextStore D E :=
  match flushHandles faults 0 s.files s.handles [] with
  | (.error exn, files, handles) => (.error exn, { s with files := files, handles := handles })
  | (.ok errors, files, handles) =>
    (if errors = [] then .ok () else .error ⟨.storageError, "failed to finalise output files"⟩,
      { s with files := files, handles := handles, sinceFlush := 0 })

/-- What opening a handle leaves alone. -/
def counters (s : TextStore D E) : Nat × List (PartName D) := (s.recordsWritten, s.filesWritten)

theorem handleFor_counters (c : TextConfig D E) (fault : Option (LineStep × Exn)) (s : TextStore D E)
    (path : PartName D) : counters (handleFor c fault s path).2 = counters s := by
  unfold handleFor
  split
  · rfl
  · split
    · rfl
    · rfl
    · dsimp only
      split <;> rfl

/-- A row that was written is counted. -/
theorem writeEvent_recordsWritten {c : TextConfig D E} {fault : Option (LineStep × Exn)} {s : TextStore D E}
    {path : PartName D} {event : E} (h : (writeEvent c fault s path event).1 = .ok ()) :
    (writeEvent c fault s path event).2.recordsWritten = s.recordsWritten + 1 := by
  have ho := congrArg Prod.fst (handleFor_counters c fault s path)
  revert h ho
  unfold writeEvent
  rcases handleFor c fault s path with ⟨_ | _, t⟩
  · intro h _; cases h
  · intro h ho
    revert h
    dsimp only at ho ⊢
    split
    · intro h; cases h
    · cases c.format with
      | csv => intro _; exact congrArg (· + 1) ho
      | jsonl =>
        dsimp only
        split
        · split
          · intro h; cases h
          · intro _; exact congrArg (· + 1) ho
        · intro _; exact congrArg (· + 1) ho

end TextStore

end LogAnalytics
