import LogAnalytics.Storage.Parquet
import LogAnalytics.Storage.Pruning
/-!
# The files of a dataset

`StorageBackend.paths` over the files a store has written: the directories that pruning keeps, and
in each of them the published files in the order of their names. What a reader meets there are the
rows of the events whose directory is kept.
-/
open LogAnalytics.Lib

namespace LogAnalytics

variable {E C : Type}

def DataPath.part {D : Type} : DataPath D → PartName D
  | .final part => part
  | .temp part => part

namespace Dataset

def fileName (extension : String) : DataPath Path → String
  | .final (_, run) => s!"part-{run}.{extension}"
  | .temp (_, run) => s!".part-{run}.{extension}.tmp"

def filePath (extension : String) (p : DataPath Path) : Path := p.part.1 ++ [fileName extension p]

/-- What `*.<extension>` matches in a directory. -/
def inDirectory (dir : Path) : DataPath Path → Option (PartName Path)
  | .final part => if part.1 = dir then some part else none
  | .temp _ => none

def published (extension : String) (files : Files (DataPath Path) C) (dir : Path) : List (PartName Path) :=
  (files.keys.filterMap (inDirectory dir)).insertionSort fun a b =>
    fileName extension (.final a) ≤ fileName extension (.final b)

/-- `StorageBackend.paths` -/
def paths (u : Unicode) (extension : String) (files : Files (DataPath Path) C) (root : Path)
    (start stop : Option Datetime) : Except Exn (List (PartName Path)) := do
  let dirs ← Partitioning.prunePartitions u (files.keys.map (filePath extension)) root start stop
  return dirs.flatMap (published extension files)

/-- The rows of a published file. -/
def rowsOf (rows : C → List E) (files : Files (DataPath Path) C) (part : PartName Path) : List E :=
  (files.lookup (.final part)).elim [] rows

/-- The rows of a file, where a reader looks for them. -/
def shown {D : Type} (rows : C → List E) : DataPath D → C → Multiset E
  | .final _, c => rows c
  | .temp _, _ => 0

/-- Every event is in a published file of its directory, and no directory is without one. -/
structure Holds (partition : E → Path) (rows : C → List E) (files : Files (DataPath Path) C) (events : Multiset E) :
    Prop where
  total : files.total (shown rows) = events
  placed : ∀ p c, files.lookup p = some c → ∀ e ∈ rows c, partition e = p.part.1
  inhabited : ∀ p c, files.lookup p = some c → ∃ e ∈ events, partition e = p.part.1

/-! ## The rows in the directories -/

/-- What is filed under one of the directories, directory by directory. -/
theorem sum_directories {K : Type} (dirOf : K → Path) (g : K → Multiset E) (ks : List K) {dirs : List Path}
    (hn : dirs.Nodup) : (dirs.map fun d => ((ks.filter (dirOf · = d)).map g).sum).sum =
      ((ks.filter (dirOf · ∈ dirs)).map g).sum := by
  induction dirs with
  | nil => simp
  | cons d dirs ih =>
    obtain ⟨hd, hn⟩ := List.nodup_cons.1 hn
    rw [List.map_cons, List.sum_cons, ih hn]
    clear ih
    induction ks with
    | nil => rfl
    | cons k ks ih =>
      by_cases hk : dirOf k = d
      · have hnot : dirOf k ∉ dirs := hk ▸ hd
        rw [List.filter_cons_of_pos (by simpa using hk), List.filter_cons_of_neg (by simpa using hnot),
          List.filter_cons_of_pos (by simp [hk]), List.map_cons, List.map_cons, List.sum_cons, List.sum_cons, ← ih,
          add_assoc]
      · rw [List.filter_cons_of_neg (by simpa using hk)]
        by_cases hmem : dirOf k ∈ dirs
        · rw [List.filter_cons_of_pos (by simpa using hmem), List.filter_cons_of_pos (by simp [hmem]), List.map_cons,
            List.map_cons, List.sum_cons, List.sum_cons, ← ih, add_left_comm]
        · rw [List.filter_cons_of_neg (by simpa using hmem), List.filter_cons_of_neg (by simp [hmem, hk]), ih]

/-- Where everything is filed under its own directory, the directories select the events. -/
theorem filter_sum {K : Type} {partition : E → Path} {dirOf : K → Path} {g : K → Multiset E} {ks : List K}
    (h : ∀ k ∈ ks, ∀ e ∈ g k, partition e = dirOf k) (dirs : List Path) :
    (ks.map g).sum.filter (partition · ∈ dirs) = ((ks.filter (dirOf · ∈ dirs)).map g).sum := by
  induction ks with
  | nil => simp
  | cons k ks ih =>
    obtain ⟨hk, hks⟩ := List.forall_mem_cons.1 h
    rw [List.map_cons, List.sum_cons, Multiset.filter_add, ih hks]
    by_cases hmem : dirOf k ∈ dirs
    · rw [List.filter_cons_of_pos (by simpa using hmem), List.map_cons, List.sum_cons,
        Multiset.filter_eq_self.2 fun e he => by rw [hk e he]; exact hmem]
    · rw [List.filter_cons_of_neg (by simpa using hmem), Multiset.filter_eq_nil.2 fun e he => by
        rw [hk e he]; exact hmem, zero_add]

theorem mem_sum {ms : List (Multiset E)} {e : E} (h : e ∈ ms.sum) : ∃ m ∈ ms, e ∈ m := by
  induction ms with
  | nil => cases h
  | cons m ms ih =>
    rw [List.sum_cons, Multiset.mem_add] at h
    rcases h with h | h
    · exact ⟨m, List.mem_cons_self, h⟩
    · obtain ⟨m', hm, he⟩ := ih h
      exact ⟨m', List.mem_cons_of_mem _ hm, he⟩

theorem coe_flatMap {α : Type} (xs : List α) (f : α → List E) :
    ((xs.flatMap f : List E) : Multiset E) = (xs.map fun x => (f x : Multiset E)).sum := by
  induction xs with
  | nil => rfl
  | cons x xs ih => rw [List.flatMap_cons, List.map_cons, List.sum_cons, ← ih, Multiset.coe_add]

/-- A directory's published files have its rows. -/
theorem rows_published (extension : String) (rows : C → List E) (files : Files (DataPath Path) C) (dir : Path) :
    (((published extension files dir).flatMap (rowsOf rows files) : List E) : Multiset E) =
      ((files.keys.filter (·.part.1 = dir)).map (files.part (shown rows))).sum := by
  have hperm := (List.perm_insertionSort (fun a b : PartName Path =>
    fileName extension (.final a) ≤ fileName extension (.final b)) (files.keys.filterMap (inDirectory dir))).flatMap_right
      (rowsOf rows files)
  have hpos {p : DataPath Path} {ps : List (DataPath Path)} (hp : p.part.1 = dir) :
      (p :: ps).filter (·.part.1 = dir) = p :: ps.filter (·.part.1 = dir) :=
    List.filter_cons_of_pos (by simpa using hp)
  have hneg {p : DataPath Path} {ps : List (DataPath Path)} (hp : p.part.1 ≠ dir) :
      (p :: ps).filter (·.part.1 = dir) = ps.filter (·.part.1 = dir) :=
    List.filter_cons_of_neg (by simpa using hp)
  rw [published, Multiset.coe_eq_coe.2 hperm, coe_flatMap]
  induction files.keys with
  | nil => rfl
  | cons p ps ih =>
    cases p with
    | temp part =>
      rw [List.filterMap_cons_none (by rfl), ih]
      by_cases hpart : part.1 = dir
      · rw [hpos (by exact hpart), List.map_cons, List.sum_cons,
          Files.part_of_zero fun _ => rfl, zero_add]
      · rw [hneg (by exact hpart)]
    | final part =>
      by_cases hpart : part.1 = dir
      · have hrows : (rowsOf rows files part : Multiset E) = files.part (shown rows) (.final part) := by
          unfold rowsOf Files.part
          cases files.lookup (.final part) <;> rfl
        rw [List.filterMap_cons_some (by rw [inDirectory, if_pos hpart]), List.map_cons, List.sum_cons, ih, hrows,
          hpos (by exact hpart), List.map_cons, List.sum_cons]
      · rw [List.filterMap_cons_none (by rw [inDirectory, if_neg hpart]), ih,
          hneg (by exact hpart)]

/-- Reading the published files of some directories gives the rows of their events. -/
theorem Holds.rows_of_directories {partition : E → Path} {rows : C → List E} {files : Files (DataPath Path) C}
    {events : Multiset E} (h : Holds partition rows files events) (extension : String) {dirs : List Path}
    (hn : dirs.Nodup) :
    (((dirs.flatMap (published extension files)).flatMap (rowsOf rows files) : List E) : Multiset E) =
      events.filter (partition · ∈ dirs) := by
  have hplaced : ∀ p ∈ files.keys, ∀ e ∈ files.part (shown rows) p, partition e = p.part.1 := by
    intro p _ e he
    unfold Files.part at he
    cases hp : files.lookup p with
    | none => simp [hp] at he
    | some c =>
      rw [hp, Option.elim_some] at he
      cases p with
      | final part => exact h.placed _ _ hp e he
      | temp part => exact absurd he (Multiset.notMem_zero e)
  rw [List.flatMap_assoc, coe_flatMap]
  simp only [rows_published]
  rw [sum_directories _ _ _ hn, ← filter_sum hplaced, ← Files.total_eq_keys, h.total]

/-! ## The directories of the events -/

/-- The directory of an event time under a layout. -/
def directory (root : Path) (keys : List PartitionKey) (utc : Clock) : Path :=
  root ++ keys.map (Partitioning.segment utc)

/-- Pruning raises nowhere: both bounds have a UTC time, the directories of the events say dates and,
when there is a bound, their intervals end in the calendar. -/
structure Readable (u : Unicode) (partition : E → Path) (events : Multiset E) (start stop : Option Datetime) : Prop where
  start_utc : ∀ d ∈ start, ∃ utc, Timeutil.ensureUtc d = .ok utc
  stop_utc : ∀ d ∈ stop, ∃ utc, Timeutil.ensureUtc d = .ok utc
  dated : ∀ e ∈ events, ∃ m, Partitioning.partitionDatetime u (partition e) = .ok m
  ends : ¬(start = none ∧ stop = none) → ∀ e ∈ events, ∀ moment,
    Partitioning.partitionDatetime u (partition e) = .ok (some moment) →
      ∃ t, Partitioning.partitionEnd moment (Partitioning.parsePartition u (partition e)) = .ok t

/-- Pruning keeps the directory, if an event is in it. -/
def Kept (u : Unicode) (start stop : Option Datetime) (dir : Path) : Prop :=
  start = none ∧ stop = none ∨ Partitioning.partitionDatetime u dir = .ok none ∨ Partitioning.Meets u dir start stop

section

variable {u : Unicode} {timestamp : E → Clock} {rows : C → List E} {files : Files (DataPath Path) C}
  {events : Multiset E} {root : Path} {keys : List PartitionKey} {start stop : Option Datetime}
  (h : Holds (fun e => directory root keys (timestamp e)) rows files events)

include h

/-- Every directory found is that of an event. -/
theorem Holds.event_of_leaf {extension : String} {dir : Path}
    (hdir : dir ∈ Partitioning.leaves u (files.keys.map (filePath extension)) root) :
    ∃ e ∈ events, directory root keys (timestamp e) = dir := by
  rw [Partitioning.leaves, List.mem_dedup, List.mem_filter, List.mem_map] at hdir
  obtain ⟨⟨file, hfile, rfl⟩, -⟩ := hdir
  obtain ⟨p, hp, rfl⟩ := List.mem_map.1 (List.mem_filter.1 hfile).1
  obtain ⟨c, hc⟩ := Option.isSome_iff_exists.1 (AList.lookup_isSome.2 (AList.mem_keys.2 hp))
  obtain ⟨e, he, hpart⟩ := h.inhabited p c hc
  exact ⟨e, he, by rw [filePath, List.dropLast_concat]; exact hpart⟩

variable (hu : u.Lawful)

include hu

/-- Where written directories have no name to look for, no file is listed. -/
theorem Holds.paths_unlisted (hunlisted : ¬Partitioning.Listed u root keys) (extension : String)
    {parts : List (PartName Path)} : paths u extension files root start stop = .ok parts ↔
      ((∀ d ∈ start, ∃ utc, Timeutil.ensureUtc d = .ok utc) ∧ ∀ d ∈ stop, ∃ utc, Timeutil.ensureUtc d = .ok utc) ∧
        parts = [] := by
  have hleaves (dir : Path) : dir ∉ Partitioning.leaves u (files.keys.map (filePath extension)) root := by
    intro hdir
    obtain ⟨e, -, rfl⟩ := h.event_of_leaf hdir
    rw [Partitioning.leaves, List.mem_dedup, List.mem_filter] at hdir
    exact hunlisted ((Partitioning.listed_iff hu (timestamp e)).2 hdir.2)
  have hnone {dirs : List Path}
      (hdirs : Partitioning.prunePartitions u (files.keys.map (filePath extension)) root start stop = .ok dirs) :
      dirs = [] :=
    List.eq_nil_iff_forall_not_mem.2 fun dir hdir =>
      hleaves dir ((Partitioning.mem_of_prunePartitions hdirs).1 hdir).1
  rw [paths, bind_ok]
  constructor
  · rintro ⟨dirs, hdirs, hparts⟩
    have hprunable := Partitioning.exists_prunePartitions.1 ⟨dirs, hdirs⟩
    rw [hnone hdirs] at hparts
    exact ⟨⟨hprunable.start_utc, hprunable.stop_utc⟩, (Except.ok.inj hparts).symm⟩
  · rintro ⟨⟨hstart, hstop⟩, rfl⟩
    obtain ⟨dirs, hdirs⟩ := Partitioning.exists_prunePartitions.2
      ⟨hstart, hstop, fun dir hdir => absurd hdir (hleaves dir), fun _ dir hdir => absurd hdir (hleaves dir)⟩
    refine ⟨dirs, hdirs, ?_⟩
    rw [hnone hdirs]
    rfl

variable (hlisted : Partitioning.Listed u root keys)

include hlisted

/-- The directories found are those of the events. -/
theorem Holds.mem_leaves (extension : String) {dir : Path} :
    dir ∈ Partitioning.leaves u (files.keys.map (filePath extension)) root ↔
      ∃ e ∈ events, directory root keys (timestamp e) = dir := by
  constructor
  · exact h.event_of_leaf
  · rintro ⟨e, he, rfl⟩
    rw [← h.total, Files.total_eq_keys] at he
    obtain ⟨m, hm, he⟩ := mem_sum he
    obtain ⟨p, hp, rfl⟩ := List.mem_map.1 hm
    unfold Files.part at he
    cases hc : files.lookup p with
    | none => simp [hc] at he
    | some c =>
      rw [hc, Option.elim_some] at he
      cases p with
      | temp part => exact absurd he (Multiset.notMem_zero e)
      | final part =>
        have hdir : directory root keys (timestamp e) = part.1 := h.placed _ _ hc e he
        have hfile : directory root keys (timestamp e) ++ [fileName extension (.final part)] ∈
            files.keys.map (filePath extension) := by
          rw [hdir]
          exact List.mem_map_of_mem hp
        exact Partitioning.dir_mem_leaves hu hlisted (timestamp e) hfile

theorem Holds.exists_paths (extension : String) : (∃ parts, paths u extension files root start stop = .ok parts) ↔
    Readable u (fun e => directory root keys (timestamp e)) events start stop := by
  have hfound : (∃ parts, paths u extension files root start stop = .ok parts) ↔
      Partitioning.Prunable u (files.keys.map (filePath extension)) root start stop := by
    rw [← Partitioning.exists_prunePartitions]
    constructor
    · rintro ⟨parts, hp⟩
      obtain ⟨dirs, hdirs, -⟩ := bind_ok.1 hp
      exact ⟨dirs, hdirs⟩
    · rintro ⟨dirs, hdirs⟩
      exact ⟨_, bind_ok.2 ⟨dirs, hdirs, rfl⟩⟩
  rw [hfound]
  have hleaf (e : E) (he : e ∈ events) := (h.mem_leaves hu hlisted extension).2 ⟨e, he, rfl⟩
  constructor
  · intro hp
    exact ⟨hp.start_utc, hp.stop_utc, fun e he => hp.dated _ (hleaf e he), fun hb e he => hp.ends hb _ (hleaf e he)⟩
  · intro hr
    refine ⟨hr.start_utc, hr.stop_utc, fun leaf hmem => ?_, fun hb leaf hmem => ?_⟩
    · obtain ⟨e, he, rfl⟩ := (h.mem_leaves hu hlisted extension).1 hmem
      exact hr.dated e he
    · obtain ⟨e, he, rfl⟩ := (h.mem_leaves hu hlisted extension).1 hmem
      exact hr.ends hb e he

/-- The files listed have the rows of the events whose directory is kept. -/
theorem Holds.paths_spec {extension : String} {parts : List (PartName Path)}
    (hp : paths u extension files root start stop = .ok parts) :
    ∃ dirs : List Path, ((parts.flatMap (rowsOf rows files) : List E) : Multiset E) =
        events.filter (fun e => directory root keys (timestamp e) ∈ dirs) ∧
      ∀ e ∈ events, directory root keys (timestamp e) ∈ dirs ↔ Kept u start stop (directory root keys (timestamp e)) := by
  obtain ⟨dirs, hdirs, hp⟩ := bind_ok.1 hp
  cases hp
  refine ⟨dirs, h.rows_of_directories extension (Partitioning.nodup_prunePartitions hdirs), fun e he => ?_⟩
  rw [Partitioning.mem_of_prunePartitions hdirs, h.mem_leaves hu hlisted extension]
  exact and_iff_right ⟨e, he, rfl⟩

end

/-! ## Collecting rows -/

/-- The files of a store with open parts: an open part has a temporary file and nothing published, the
files have the rows of the events, each in its directory, and no file is empty. -/
structure Writing {D : Type} [DecidableEq D] (partition : E → D) (rows : C → List E) (files : Files (DataPath D) C)
    (writers : List (PartName D)) (events : Multiset E) : Prop where
  nodup : writers.Nodup
  temp : ∀ w, w ∈ writers ↔ (files.lookup (.temp w)).isSome
  free : ∀ w ∈ writers, files.lookup (.final w) = none
  total : files.total (fun _ c => (rows c : Multiset E)) = events
  placed : ∀ p c, files.lookup p = some c → ∀ e ∈ rows c, partition e = p.part.1
  filled : ∀ p c, files.lookup p = some c → rows c ≠ []

namespace Writing

variable {D : Type} [DecidableEq D] {partition : E → D} {rows : C → List E} {files : Files (DataPath D) C}
  {writers : List (PartName D)} {events : Multiset E} {path : PartName D}

theorem start : Writing partition rows (∅ : Files (DataPath D) C) [] 0 where
  nodup := List.nodup_nil
  temp := fun w => by simp
  free := fun w hw => absurd hw List.not_mem_nil
  total := rfl
  placed := fun p c h => by simp at h
  filled := fun p c h => by simp at h

/-- Rows for a part that has published nothing. -/
theorem put (h : Writing partition rows files writers events) (hfree : files.lookup (.final path) = none) {c : C}
    {xs : List E} (hrows : rows c = (files.lookup (.temp path)).elim [] rows ++ xs) (hxs : xs ≠ [])
    (hplaced : ∀ e ∈ xs, partition e = path.1) :
    Writing partition rows (files.insert (.temp path) c) (if path ∈ writers then writers else writers ++ [path])
      (events + xs) where
  nodup := by
    split
    · exact h.nodup
    · next hnew =>
      refine List.nodup_append.2 ⟨h.nodup, List.nodup_singleton path, ?_⟩
      rintro w hw v hv rfl
      exact hnew (List.mem_singleton.1 hv ▸ hw)
  temp := by
    intro w
    by_cases hw : w = path
    · subst hw
      rw [AList.lookup_insert]
      split <;> simp_all
    · rw [AList.lookup_insert_ne (by simpa using hw), ← h.temp]
      split <;> simp [hw]
  free := by
    intro w hw
    rw [AList.lookup_insert_ne (by simp)]
    by_cases hpath : w = path
    · rw [hpath, hfree]
    · refine h.free w ?_
      split at hw
      · exact hw
      · simpa [hpath] using hw
  total := by
    have htotal := Files.total_insert (fun _ c => (rows c : Multiset E)) files (.temp path) c
    have hpart : files.part (fun _ c => (rows c : Multiset E)) (.temp path) =
        (((files.lookup (.temp path)).elim [] rows : List E) : Multiset E) := by
      unfold Files.part
      cases files.lookup (.temp path) <;> rfl
    rw [h.total, hpart, hrows, ← Multiset.coe_add, ← add_assoc, add_right_comm] at htotal
    exact add_right_cancel htotal
  placed := by
    intro p d hp e he
    by_cases hpath : p = .temp path
    · subst hpath
      rw [AList.lookup_insert, Option.some.injEq] at hp
      rw [← hp, hrows, List.mem_append] at he
      rcases he with he | he
      · cases hold : files.lookup (.temp path) with
        | none => simp [hold] at he
        | some old => exact h.placed _ old hold e (by simpa [hold] using he)
      · exact hplaced e he
    · rw [AList.lookup_insert_ne hpath] at hp
      exact h.placed p d hp e he
  filled := by
    intro p d hp
    by_cases hpath : p = .temp path
    · subst hpath
      rw [AList.lookup_insert, Option.some.injEq] at hp
      rw [← hp, hrows]
      exact List.append_ne_nil_of_right_ne_nil _ hxs
    · rw [AList.lookup_insert_ne hpath] at hp
      exact h.filled p d hp

/-- Closing the file of an open part leaves its rows. -/
theorem close (h : Writing partition rows files writers events) {c c' : C} (hc : files.lookup (.temp path) = some c)
    (hrows : rows c' = rows c) : Writing partition rows (files.insert (.temp path) c') writers events where
  nodup := h.nodup
  temp := by
    intro w
    rw [h.temp]
    by_cases hw : w = path
    · rw [hw, AList.lookup_insert, hc]
      simp
    · rw [AList.lookup_insert_ne (by simpa using hw)]
  free := fun w hw => (AList.lookup_insert_ne (by simp)).trans (h.free w hw)
  total := by
    have htotal := Files.total_insert (fun _ c => (rows c : Multiset E)) files (.temp path) c'
    rw [Files.part_of_lookup hc, h.total, hrows] at htotal
    exact add_right_cancel htotal
  placed := by
    intro p d hp
    by_cases hpath : p = .temp path
    · subst hpath
      rw [AList.lookup_insert, Option.some.injEq] at hp
      rw [← hp, hrows]
      exact h.placed _ c hc
    · rw [AList.lookup_insert_ne hpath] at hp
      exact h.placed p d hp
  filled := by
    intro p d hp
    by_cases hpath : p = .temp path
    · subst hpath
      rw [AList.lookup_insert, Option.some.injEq] at hp
      rw [← hp, hrows]
      exact h.filled _ c hc
    · rw [AList.lookup_insert_ne hpath] at hp
      exact h.filled p d hp

/-- Publishing an open part moves its rows. -/
theorem publish (h : Writing partition rows files (path :: writers) events) :
    Writing partition rows (files.rename (.temp path) (.final path)) writers events := by
  obtain ⟨hpath, hnodup⟩ := List.nodup_cons.1 h.nodup
  obtain ⟨c, hc⟩ := Option.isSome_iff_exists.1 ((h.temp path).1 List.mem_cons_self)
  have hfree := h.free path List.mem_cons_self
  have hfinal := Files.lookup_rename (q := .final path) hc
  have hgone : (files.rename (.temp path) (.final path)).lookup (.temp path) = none := by
    simp [Files.rename, hc]
  have hother {p : DataPath D} (ht : p ≠ .temp path) (hf : p ≠ .final path) :
      (files.rename (.temp path) (.final path)).lookup p = files.lookup p := Files.lookup_rename_of_ne ht hf
  -- a file there is now was there before, under a path of the same part
  have hold {p : DataPath D} {d : C} (hp : (files.rename (.temp path) (.final path)).lookup p = some d) :
      ∃ q, files.lookup q = some d ∧ q.part = p.part := by
    by_cases ht : p = .temp path
    · rw [ht, hgone] at hp
      cases hp
    · by_cases hf : p = .final path
      · rw [hf, hfinal] at hp
        exact ⟨.temp path, hc.trans hp, by rw [hf]; rfl⟩
      · exact ⟨p, (hother ht hf).symm.trans hp, rfl⟩
  refine ⟨hnodup, fun w => ?_, fun w hw => ?_, ?_, fun p d hp => ?_, fun p d hp => ?_⟩
  · by_cases hw : w = path
    · rw [hw, hgone]
      simpa using hpath
    · rw [hother (by simpa using hw) (by simp), ← h.temp]
      simp [hw]
  · have hne : w ≠ path := by
      rintro rfl
      exact hpath hw
    rw [hother (by simp) (by simpa using hne)]
    exact h.free w (List.mem_cons_of_mem _ hw)
  · have herase := Files.total_erase (fun _ c => (rows c : Multiset E)) files (.temp path)
    rw [Files.part_of_lookup hc, h.total] at herase
    have hnone : (files.erase (.temp path)).lookup (.final path) = none := by
      rw [AList.lookup_erase_ne (by simp), hfree]
    simp only [Files.rename, hc]
    rw [Files.total_insert_new hnone, herase]
  · obtain ⟨q, hq, hpart⟩ := hold hp
    rw [← hpart]
    exact h.placed q d hq
  · obtain ⟨q, hq, -⟩ := hold hp
    exact h.filled q d hq

end Writing

/-- With no part open, the published files hold the events. -/
theorem Writing.holds {partition : E → Path} {rows rows' : C → List E} {files : Files (DataPath Path) C}
    {events : Multiset E} (h : Writing partition rows files [] events)
    (hrows : ∀ w c, files.lookup (.final w) = some c → rows' c = rows c) : Holds partition rows' files events := by
  have hfinal {p : DataPath Path} {c : C} (hp : files.lookup p = some c) : rows' c = rows c ∧
      shown rows' p c = (rows c : Multiset E) := by
    cases p with
    | final w => exact ⟨hrows w c hp, congrArg _ (hrows w c hp)⟩
    | temp w => exact absurd ((h.temp w).2 (by rw [hp]; rfl)) List.not_mem_nil
  refine ⟨?_, fun p c hp e he => h.placed p c hp e ((hfinal hp).1 ▸ he), fun p c hp => ?_⟩
  · rw [← h.total, Files.total_eq_keys, Files.total_eq_keys]
    refine congrArg _ (List.map_congr_left fun p hp => ?_)
    obtain ⟨c, hc⟩ := Option.isSome_iff_exists.1 (AList.lookup_isSome.2 (AList.mem_keys.2 hp))
    rw [Files.part_of_lookup hc, Files.part_of_lookup hc, (hfinal hc).2]
  · obtain ⟨e, he⟩ := List.exists_mem_of_ne_nil _ (h.filled p c hp)
    have hle := Files.total_erase (fun _ c => (rows c : Multiset E)) files p
    rw [Files.part_of_lookup hp, h.total] at hle
    exact ⟨e, hle ▸ Multiset.mem_add.2 (.inr he), h.placed p c hp e he⟩

end Dataset

end LogAnalytics
