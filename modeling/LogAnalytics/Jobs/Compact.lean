import Mathlib.Data.List.Sort
import Mathlib.Algebra.Order.BigOperators.Group.List
import Mathlib.Data.Multiset.OrderedMonoid
import LogAnalytics.Lib.Files
/-!
# Compaction

`compact_job` as the file system steps it takes, in order. A crash, or an `OSError` from a
step, leaves the files as some number of these steps left them. The merged file is written
under a hidden name and the originals are removed before it gets its visible one: between
the first removal and the rename, the rows removed so far are visible nowhere.
-/
open LogAnalytics.Lib

namespace LogAnalytics.Compact

/-- A file of a partition directory. A row is its stored columns; an incomplete file cannot
be read. -/
structure PartFile (R : Type) where
  rows : List R
  size : Nat
  complete : Bool := true

/-- A partition directory and a file name in it. -/
abbrev FilePath (P : Type) := P × String

/-- The name matches `*.parquet`. -/
def isParquet (name : String) : Bool := ".parquet".toList.isSuffixOf name.toList

def tempName : String := ".compacted.parquet.tmp"

def compactedName : String := "part-compacted.parquet"

inductive FsStep (P R : Type) where
  /-- `pq.write_table` creates the hidden file ... -/
  | create (partition : P)
  /-- ... and completes it. -/
  | finish (partition : P) (rows : List R)
  | unlink (path : FilePath P)
  | rename (partition : P)

variable {P R : Type} [DecidableEq P]

/-- The rows a reader sees in one file of the partition. -/
def visible (partition : P) (path : FilePath P) (f : PartFile R) : Multiset R :=
  if path.1 = partition ∧ isParquet path.2 = true ∧ f.complete = true then f.rows else 0

/-- `sorted(partition.glob("*.parquet"))` -/
def parquetFiles (fs : Files (FilePath P) (PartFile R)) (partition : P) : List (FilePath P) :=
  (fs.keys.filter fun path => path.1 = partition && isParquet path.2).insertionSort fun a b => a.2 ≤ b.2

/-- `pq.read_table`: the rows of the files, in order; it raises on a file it cannot read. -/
def readTable (fs : Files (FilePath P) (PartFile R)) : List (FilePath P) → Option (List R)
  | [] => some []
  | path :: rest =>
    match fs.lookup path with
    | none => none
    | some f => if f.complete then (readTable fs rest).map (f.rows ++ ·) else none

def sizeOf (fs : Files (FilePath P) (PartFile R)) (path : FilePath P) : Nat := (fs.lookup path).elim 0 (·.size)

/-- What the job is called with, and the size a table is written in. -/
structure CompactConfig (R : Type) where
  targetMb : Int := 128
  encodedSize : List R → Nat

variable (c : CompactConfig R)

def apply (fs : Files (FilePath P) (PartFile R)) : FsStep P R → Files (FilePath P) (PartFile R)
  | .create p => fs.insert (p, tempName) ⟨[], 0, false⟩
  | .finish p rows => fs.insert (p, tempName) ⟨rows, c.encodedSize rows, true⟩
  | .unlink path => fs.erase path
  | .rename p => fs.rename (p, tempName) (p, compactedName)

def applyAll (fs : Files (FilePath P) (PartFile R)) (steps : List (FsStep P R)) : Files (FilePath P) (PartFile R) :=
  steps.foldl (apply c) fs

/-- Write the merged file aside, remove the originals, give it its name. -/
def mergeSteps (partition : P) (rows : List R) (files : List (FilePath P)) : List (FsStep P R) :=
  .create partition :: .finish partition rows :: (files.map .unlink ++ [.rename partition])

/-- The steps for one partition, none when it is left alone; `none` when reading it raises. -/
def plan (fs : Files (FilePath P) (PartFile R)) (partition : P) : Option (List (FsStep P R)) :=
  let files := parquetFiles fs partition
  if files.length < 2 then some []
  else
    let before := (files.map (sizeOf fs)).sum
    if c.targetMb * 1024 ^ 2 * files.length < before then some []
    else
      match readTable fs files with
      | none => none
      | some rows => some (mergeSteps partition rows files)

/-- The steps of the whole job over `iter_partitions(root)`. -/
def jobSteps : Files (FilePath P) (PartFile R) → List P → List (FsStep P R)
  | _, [] => []
  | fs, p :: ps =>
    match plan c fs p with
    | none => []
    | some steps => steps ++ jobSteps (applyAll c fs steps) ps

/-- The files when the job has stopped after `n` of its steps. -/
def stoppedAfter (fs : Files (FilePath P) (PartFile R)) (partitions : List P) (n : Nat) : Files (FilePath P) (PartFile R) :=
  applyAll c fs ((jobSteps c fs partitions).take n)

/-- `compact_job`: the files it leaves, and, unless it raises, how many files it merged and
the bytes it reclaimed. -/
def compactJob : Files (FilePath P) (PartFile R) → List P → Nat × Nat →
    Option (Nat × Nat) × Files (FilePath P) (PartFile R)
  | fs, [], counts => (some counts, fs)
  | fs, p :: ps, (compacted, reclaimed) =>
    match plan c fs p with
    | none => (none, fs)
    | some [] => compactJob fs ps (compacted, reclaimed)
    | some steps =>
      let files := parquetFiles fs p
      let before := (files.map (sizeOf fs)).sum
      let fs := applyAll c fs steps
      let after := sizeOf fs (p, compactedName)
      compactJob fs ps (compacted + files.length, reclaimed + (before - after))

/-- The job ends with all its steps taken. -/
theorem compactJob_files (partitions : List P) : ∀ (fs : Files (FilePath P) (PartFile R)) (counts : Nat × Nat),
    (compactJob c fs partitions counts).2 = applyAll c fs (jobSteps c fs partitions) := by
  induction partitions with
  | nil => intro fs counts; rfl
  | cons p ps ih =>
    intro fs counts
    obtain ⟨compacted, reclaimed⟩ := counts
    rw [compactJob, jobSteps]
    split
    · next h => simp [h, applyAll]
    · next h => rw [ih]; simp [h, applyAll]
    · next steps _ h => rw [ih]; simp [h, applyAll]

/-! ## One partition -/

theorem plan_cases (fs : Files (FilePath P) (PartFile R)) (p : P) :
    plan c fs p = none ∨ plan c fs p = some [] ∨
      ∃ rows, readTable fs (parquetFiles fs p) = some rows ∧ plan c fs p = some (mergeSteps p rows (parquetFiles fs p)) := by
  unfold plan
  dsimp only
  split
  · right; left; rfl
  · split
    · right; left; rfl
    · cases h : readTable fs (parquetFiles fs p) with
      | none => left; rfl
      | some rows => right; right; exact ⟨rows, rfl, rfl⟩

@[simp] theorem isParquet_temp : isParquet tempName = false := by decide

@[simp] theorem isParquet_compacted : isParquet compactedName = true := by decide

theorem visible_temp (q p : P) (f : PartFile R) : visible q (p, tempName) f = 0 := by
  simp [visible]

theorem visible_other {q : P} {path : FilePath P} (h : path.1 ≠ q) (f : PartFile R) : visible q path f = 0 := by
  simp [visible, h]

theorem mem_parquetFiles {fs : Files (FilePath P) (PartFile R)} {p : P} {path : FilePath P} :
    path ∈ parquetFiles fs p ↔ path ∈ fs.keys ∧ path.1 = p ∧ isParquet path.2 = true := by
  simp [parquetFiles, List.mem_insertionSort]

theorem parquetFiles_nodup (fs : Files (FilePath P) (PartFile R)) (p : P) : (parquetFiles fs p).Nodup :=
  (List.perm_insertionSort _ _).nodup_iff.2 (fs.keys_nodup.filter _)

/-- The visible rows of a partition are those of its `*.parquet` files. -/
theorem total_visible (fs : Files (FilePath P) (PartFile R)) (p : P) :
    fs.total (visible p) = ((parquetFiles fs p).map (fs.part (visible p))).sum := by
  have hcounted : ∀ (path : FilePath P) (f : PartFile R), (path.1 = p && isParquet path.2) = false → visible p path f = 0 := by
    intro path f h
    rw [visible, if_neg]
    rintro ⟨h1, h2, -⟩
    simp [h1, h2] at h
  rw [Files.total_eq_filter hcounted]
  exact ((List.perm_insertionSort _ _).map _).symm.sum_eq

/-- A table read from files of the partition has the rows visible in them. -/
theorem readTable_rows {fs : Files (FilePath P) (PartFile R)} {p : P} {paths : List (FilePath P)}
    (hp : ∀ path ∈ paths, path.1 = p ∧ isParquet path.2 = true) : ∀ {rows : List R}, readTable fs paths = some rows →
    (rows : Multiset R) = (paths.map (fs.part (visible p))).sum := by
  induction paths with
  | nil => intro rows h; cases h; rfl
  | cons path paths ih =>
    intro rows h
    rw [List.forall_mem_cons] at hp
    rw [readTable] at h
    cases hl : fs.lookup path with
    | none => simp [hl] at h
    | some f =>
      simp only [hl] at h
      split at h
      · next hc =>
        obtain ⟨rest, hr, rfl⟩ := Option.map_eq_some_iff.1 h
        rw [List.map_cons, List.sum_cons, ← ih hp.2 hr, Files.part_of_lookup hl, visible, if_pos ⟨hp.1.1, hp.1.2, hc⟩]
        exact (Multiset.coe_add _ _).symm
      · cases h

/-- The state in which the merged file is complete and hidden and the paths are removed. -/
def removed (fs : Files (FilePath P) (PartFile R)) (p : P) (rows : List R) (paths : List (FilePath P)) :
    Files (FilePath P) (PartFile R) :=
  (applyAll c fs [.create p, .finish p rows]).eraseAll paths

theorem applyAll_unlinks (fs : Files (FilePath P) (PartFile R)) (paths : List (FilePath P)) :
    applyAll c fs (paths.map .unlink) = fs.eraseAll paths := by
  simp only [applyAll, List.foldl_map, apply, Files.eraseAll]

theorem lookup_written (fs : Files (FilePath P) (PartFile R)) {p : P} {path : FilePath P} (h : path ≠ (p, tempName))
    (rows : List R) : (applyAll c fs [.create p, .finish p rows]).lookup path = fs.lookup path := by
  simp only [applyAll, List.foldl_cons, List.foldl_nil, apply, AList.lookup_insert_ne h]

theorem total_written (fs : Files (FilePath P) (PartFile R)) (p q : P) (rows : List R) :
    (applyAll c fs [.create p, .finish p rows]).total (visible q) = fs.total (visible q) := by
  simp only [applyAll, List.foldl_cons, List.foldl_nil, apply]
  rw [Files.total_insert_of_zero (visible_temp q p), Files.total_insert_of_zero (visible_temp q p)]

/-- Removing originals hides their rows. -/
theorem total_removed (fs : Files (FilePath P) (PartFile R)) (p q : P) (rows : List R) {paths : List (FilePath P)}
    (hn : paths.Nodup) (hp : ∀ path ∈ paths, isParquet path.2 = true) :
    (removed c fs p rows paths).total (visible q) + (paths.map (fs.part (visible q))).sum = fs.total (visible q) := by
  have hparts : paths.map ((applyAll c fs [.create p, .finish p rows]).part (visible q)) = paths.map (fs.part (visible q)) := by
    refine List.map_congr_left fun path hpath => ?_
    have hne : path ≠ (p, tempName) := by
      rintro rfl
      simpa using hp _ hpath
    simp only [Files.part, lookup_written c fs hne]
  have h := Files.total_eraseAll (visible q) hn (applyAll c fs [.create p, .finish p rows])
  rwa [hparts, total_written] at h

/-- A merge as one change of the files. -/
theorem merged_eq (fs : Files (FilePath P) (PartFile R)) (p : P) (rows : List R) (files : List (FilePath P)) :
    applyAll c fs (mergeSteps p rows files) = (removed c fs p rows files).rename (p, tempName) (p, compactedName) := by
  rw [mergeSteps, removed, ← applyAll_unlinks c]
  simp only [applyAll, List.foldl_cons, List.foldl_append, List.foldl_nil, apply]

/-- The merged file shows the rows of the files it replaces. -/
theorem total_merged {fs : Files (FilePath P) (PartFile R)} {p : P} {rows : List R}
    (h : readTable fs (parquetFiles fs p) = some rows) (q : P) :
    (applyAll c fs (mergeSteps p rows (parquetFiles fs p))).total (visible q) = fs.total (visible q) := by
  have hpaths : ∀ path ∈ parquetFiles fs p, path.1 = p ∧ isParquet path.2 = true := fun path hpath =>
    (mem_parquetFiles.1 hpath).2
  have htemp : (removed c fs p rows (parquetFiles fs p)).lookup (p, tempName) = some ⟨rows, c.encodedSize rows, true⟩ := by
    rw [removed, Files.lookup_eraseAll]
    · simp [applyAll, apply]
    · intro hmem
      simpa using (hpaths _ hmem).2
  have hfree : (removed c fs p rows (parquetFiles fs p)).lookup (p, compactedName) = none := by
    by_cases hmem : (p, compactedName) ∈ parquetFiles fs p
    · exact Files.lookup_eraseAll_mem hmem _
    · -- a file of this name would have been one of the originals
      have hne : ((p, compactedName) : FilePath P) ≠ (p, tempName) := by
        intro he
        exact absurd (Prod.mk.inj he).2 (by decide)
      rw [removed, Files.lookup_eraseAll hmem, lookup_written c fs hne, ← Option.not_isSome_iff_eq_none,
        AList.lookup_isSome]
      exact fun hin => hmem (mem_parquetFiles.2 ⟨AList.mem_keys.1 hin, rfl, isParquet_compacted⟩)
  have hremoved := total_removed c fs p q rows (parquetFiles_nodup fs p) (fun path hpath => (hpaths path hpath).2)
  rw [merged_eq, Files.total_rename (visible_temp q p) htemp hfree (by simp [tempName, compactedName]), ← hremoved]
  congr 1
  by_cases hq : p = q
  · subst hq
    rw [← readTable_rows hpaths h, visible, if_pos ⟨rfl, isParquet_compacted, rfl⟩]
  · rw [visible_other hq, eq_comm, List.sum_eq_zero]
    rintro _ hx
    obtain ⟨path, hpath, rfl⟩ := List.mem_map.1 hx
    exact Files.part_of_zero (visible_other ((hpaths path hpath).1.trans_ne hq)) fs

/-! ## Where it stops -/

omit [DecidableEq P] in
@[simp] theorem unlink_mem_unlinks {path : FilePath P} {p : P} {rows : List R} {paths : List (FilePath P)} :
    .unlink path ∈ (.create p :: .finish p rows :: paths.map .unlink : List (FsStep P R)) ↔ path ∈ paths := by
  simp only [List.mem_cons, reduceCtorEq, false_or, List.mem_map, FsStep.unlink.injEq, exists_eq_right]

omit [DecidableEq P] in
/-- What a stop inside the merge of a partition leaves: the first originals, without the rest. -/
theorem take_mergeSteps {p : P} {rows : List R} {files : List (FilePath P)} {n : Nat}
    (h : n < (mergeSteps p rows files).length) :
    (mergeSteps p rows files).take n = [] ∨ (mergeSteps p rows files).take n = [.create p] ∨
      ∃ k, (mergeSteps p rows files).take n = .create p :: .finish p rows :: (files.take k).map .unlink := by
  rcases n with _ | _ | k
  · left; rfl
  · right; left; rfl
  · right; right
    have hk : k ≤ (files.map (FsStep.unlink (R := R))).length := by
      simp only [mergeSteps, List.length_cons, List.length_append, List.length_map, List.length_nil] at h ⊢
      omega
    refine ⟨k, ?_⟩
    rw [mergeSteps, List.take_succ_cons, List.take_succ_cons, List.take_append_of_le_length hk, List.map_take]

/-- Inside the merge of a partition the visible rows are as before exactly while no original
with rows is gone. -/
theorem total_stopped {fs : Files (FilePath P) (PartFile R)} {p : P} {rows : List R} {n : Nat}
    (h : n < (mergeSteps p rows (parquetFiles fs p)).length) :
    (∀ q, (applyAll c fs ((mergeSteps p rows (parquetFiles fs p)).take n)).total (visible q) = fs.total (visible q)) ↔
      ∀ path, .unlink path ∈ (mergeSteps p rows (parquetFiles fs p)).take n → fs.part (visible path.1) path = 0 := by
  rcases take_mergeSteps h with ht | ht | ⟨k, ht⟩
  · simp [ht, applyAll]
  · rw [ht]
    refine iff_of_true (fun q => ?_) (by simp)
    exact Files.total_insert_of_zero (visible_temp q p) _ _
  · have hpaths : ∀ path ∈ (parquetFiles fs p).take k, path.1 = p ∧ isParquet path.2 = true := fun path hpath =>
      (mem_parquetFiles.1 (List.mem_of_mem_take hpath)).2
    have hstate : applyAll c fs ((mergeSteps p rows (parquetFiles fs p)).take n) =
        removed c fs p rows ((parquetFiles fs p).take k) := by
      rw [ht, removed, ← applyAll_unlinks c]
      rfl
    have hremoved : ∀ q, (removed c fs p rows ((parquetFiles fs p).take k)).total (visible q) +
        (((parquetFiles fs p).take k).map (fs.part (visible q))).sum = fs.total (visible q) := fun q =>
      total_removed c fs p q rows ((parquetFiles_nodup fs p).sublist (List.take_sublist _ _)) fun path hpath =>
        (hpaths path hpath).2
    rw [hstate, ht]
    constructor
    · intro hsame path hpath
      have hsum := hremoved path.1
      rw [hsame, add_eq_left] at hsum
      have hle := List.le_sum_of_mem (List.mem_map_of_mem (f := fs.part (visible path.1)) (unlink_mem_unlinks.1 hpath))
      rwa [hsum, Multiset.le_zero] at hle
    · intro hzero q
      rw [← hremoved q, List.sum_eq_zero, add_zero]
      intro x hx
      obtain ⟨path, hpath, rfl⟩ := List.mem_map.1 hx
      by_cases hq : path.1 = q
      · rw [← hq]
        exact hzero path (unlink_mem_unlinks.2 hpath)
      · exact Files.part_of_zero (visible_other hq) fs

/-! ## The job -/

omit [DecidableEq P] in
theorem unlink_mem_mergeSteps {path : FilePath P} {p : P} {rows : List R} {files : List (FilePath P)} :
    .unlink path ∈ mergeSteps p rows files ↔ path ∈ files := by
  simp [mergeSteps]

omit [DecidableEq P] in
theorem rename_mem_mergeSteps {q p : P} {rows : List R} {files : List (FilePath P)} :
    .rename q ∈ mergeSteps p rows files ↔ q = p := by
  simp [mergeSteps]

omit [DecidableEq P] in
/-- The rename is the last step. -/
theorem rename_notMem_take {q p : P} {rows : List R} {files : List (FilePath P)} {n : Nat}
    (h : n < (mergeSteps p rows files).length) : .rename q ∉ (mergeSteps p rows files).take n := by
  rcases take_mergeSteps h with ht | ht | ⟨k, ht⟩ <;> simp [ht, -List.map_take]

theorem unlink_mem_jobSteps {path : FilePath P} {ps : List P} : ∀ {fs : Files (FilePath P) (PartFile R)},
    .unlink path ∈ jobSteps c fs ps → path.1 ∈ ps := by
  induction ps with
  | nil => intro fs h; simp [jobSteps] at h
  | cons p ps ih =>
    intro fs h
    rcases plan_cases c fs p with hplan | hplan | ⟨rows, -, hplan⟩ <;> simp only [jobSteps, hplan] at h
    · cases h
    · exact List.mem_cons_of_mem _ (ih h)
    · rcases List.mem_append.1 h with h | h
      · rw [(mem_parquetFiles.1 (unlink_mem_mergeSteps.1 h)).2.1]
        exact List.mem_cons_self
      · exact List.mem_cons_of_mem _ (ih h)

/-- A merge leaves the other partitions alone. -/
theorem lookup_merged (fs : Files (FilePath P) (PartFile R)) {p : P} (rows : List R) {path : FilePath P} (h : path.1 ≠ p) :
    (applyAll c fs (mergeSteps p rows (parquetFiles fs p))).lookup path = fs.lookup path := by
  have hne : ∀ name, path ≠ (p, name) := by
    rintro name rfl
    exact h rfl
  have hmem : path ∉ parquetFiles fs p := fun hmem => h (mem_parquetFiles.1 hmem).2.1
  rw [merged_eq, Files.lookup_rename_of_ne (hne _) (hne _), removed, Files.lookup_eraseAll hmem, lookup_written c fs (hne _)]

/-- The job stopped after `n` steps shows the rows it found exactly when each original with
rows that is gone has its merged file in place. -/
theorem compact_preserves {partitions : List P} (hn : partitions.Nodup) (n : Nat) (fs : Files (FilePath P) (PartFile R)) :
    (∀ q, (stoppedAfter c fs partitions n).total (visible q) = fs.total (visible q)) ↔
      ∀ path, .unlink path ∈ (jobSteps c fs partitions).take n →
        .rename path.1 ∈ (jobSteps c fs partitions).take n ∨ fs.part (visible path.1) path = 0 := by
  induction partitions generalizing fs n with
  | nil => simp [stoppedAfter, jobSteps, applyAll]
  | cons p ps ih =>
    obtain ⟨hp, hn⟩ := List.nodup_cons.1 hn
    rcases plan_cases c fs p with hplan | hplan | ⟨rows, hread, hplan⟩
    · simp [stoppedAfter, jobSteps, hplan, applyAll]
    · have h := ih hn n fs
      simpa only [stoppedAfter, jobSteps, hplan, applyAll, List.nil_append, List.foldl_nil] using h
    · have hsteps : jobSteps c fs (p :: ps) = mergeSteps p rows (parquetFiles fs p) ++
          jobSteps c (applyAll c fs (mergeSteps p rows (parquetFiles fs p))) ps := by
        simp only [jobSteps, hplan]
      by_cases hlt : n < (mergeSteps p rows (parquetFiles fs p)).length
      · -- the stop is inside this partition, before its rename
        rw [stoppedAfter, hsteps, List.take_append_of_le_length hlt.le, total_stopped c hlt]
        simp only [rename_notMem_take hlt, false_or]
      · -- this partition is merged; the stop is in what follows
        rw [not_lt] at hlt
        have hstop : stoppedAfter c fs (p :: ps) n =
            stoppedAfter c (applyAll c fs (mergeSteps p rows (parquetFiles fs p))) ps
              (n - (mergeSteps p rows (parquetFiles fs p)).length) := by
          rw [stoppedAfter, stoppedAfter, hsteps, List.take_append, List.take_of_length_le hlt, applyAll, List.foldl_append]
          rfl
        have h := ih hn (n - (mergeSteps p rows (parquetFiles fs p)).length)
          (applyAll c fs (mergeSteps p rows (parquetFiles fs p)))
        simp only [total_merged c hread] at h
        rw [hstop, h, hsteps, List.take_append, List.take_of_length_le hlt]
        refine forall_congr' fun path => ?_
        have hother : .unlink path ∈ (jobSteps c (applyAll c fs (mergeSteps p rows (parquetFiles fs p))) ps).take
            (n - (mergeSteps p rows (parquetFiles fs p)).length) → path.1 ≠ p := by
          rintro hmem rfl
          exact hp (unlink_mem_jobSteps c (List.mem_of_mem_take hmem))
        rw [List.mem_append, List.mem_append, rename_mem_mergeSteps]
        constructor
        · rintro h (hmem | hmem)
          · exact .inl (.inl (mem_parquetFiles.1 (unlink_mem_mergeSteps.1 hmem)).2.1)
          · have hpart := h hmem
            rw [Files.part, lookup_merged c fs rows (hother hmem)] at hpart
            exact hpart.imp_left .inr
        · intro h hmem
          rw [Files.part, lookup_merged c fs rows (hother hmem)]
          exact (h (.inr hmem)).imp_left fun hr => hr.resolve_left (hother hmem)

/-- A partition of two small files. -/
def twoFiles : Files (FilePath String) (PartFile Nat) :=
  [⟨("day=07", "part-a.parquet"), ⟨[1], 10, true⟩⟩, ⟨("day=07", "part-b.parquet"), ⟨[2], 10, true⟩⟩].toAList

/-- `target_mb=128`, rows of ten bytes. -/
def smallTables : CompactConfig Nat := { encodedSize := fun rows => 10 * rows.length }

/-- Stopped before the first `unlink`, the job has only written the hidden file. -/
theorem compact_preserves_hidden :
    (stoppedAfter smallTables twoFiles ["day=07"] 2).total (visible "day=07") = twoFiles.total (visible "day=07") := by
  refine (@compact_preserves _ _ _ smallTables ["day=07"] (by decide) 2 twoFiles).2 (fun path hpath => ?_) "day=07"
  rw [show (jobSteps smallTables twoFiles ["day=07"]).take 2 = [.create "day=07", .finish "day=07" [1, 2]] from rfl] at hpath
  simp at hpath

/-- Stopped after it, the job leaves one of the two rows visible. -/
theorem compact_loses_rows : ¬∀ q,
    (stoppedAfter smallTables twoFiles ["day=07"] 3).total (visible q) = twoFiles.total (visible q) := by
  intro h
  have hlost : (stoppedAfter smallTables twoFiles ["day=07"] 3).total (visible "day=07") = {2} := by decide
  have hfound : twoFiles.total (visible "day=07") = {1, 2} := by decide
  have heq := h "day=07"
  rw [hlost, hfound] at heq
  exact absurd heq (by decide)

/-- Run to its end, it shows both. -/
example : (stoppedAfter smallTables twoFiles ["day=07"] 5).total (visible "day=07") = {1, 2} := by decide

end LogAnalytics.Compact
