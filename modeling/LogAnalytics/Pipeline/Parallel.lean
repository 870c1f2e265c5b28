import Mathlib.Algebra.Order.Ring.Rat
import Mathlib.Algebra.Order.Group.Multiset
import LogAnalytics.Exn
import LogAnalytics.Models.Results
/-!
# Parallel batch processing

`process_parallel`: one run per file, in worker processes that finish in any order, or one after
the other when there is one worker. What is said of the combined result as a whole is its
`Totals`, where the order of the lists does not count; merging is addition there.
-/
open LogAnalytics.Lib

namespace LogAnalytics

/-- A run's result with what the process measured. -/
structure WorkerResult extends PipelineResult where
  sources : List String := []
  bytesRead : Nat := 0
  peakMemoryMb : ℚ := 0

/-- Fold a worker's result into this one. -/
def WorkerResult.merge (r other : WorkerResult) : WorkerResult where
  toPipelineResult := r.toPipelineResult.merge other.toPipelineResult
  sources := r.sources ++ other.sources
  bytesRead := r.bytesRead + other.bytesRead
  peakMemoryMb := max r.peakMemoryMb other.peakMemoryMb

namespace ParallelRun

/-- `os.cpu_count()` may not know. -/
def effectiveWorkerCount (cpuCount : Option Nat) (requested : Int) (itemCount : Nat) : Nat :=
  let cpu := (cpuCount.filter (· ≠ 0)).getD 2
  (max 1 (min (min requested itemCount) (max 1 (cpu - 1 : Int)))).toNat

section

-- `fileName` is `Path(path).name`, `run` the run of the `index`-th path.
variable (fileName : String → String) (run : Nat → String → Except Exn WorkerResult)

/-- One worker: the first run that raises ends the call. -/
def sequential : List (String × Nat) → WorkerResult → Except Exn WorkerResult
  | [], combined => .ok combined
  | (path, index) :: rest, combined => (run index path).bind fun result => sequential rest (combined.merge result)

/-- A future is done: its result is merged, or its exception recorded. -/
def collect (combined : WorkerResult) (job : String × Nat) : WorkerResult :=
  match run job.2 job.1 with
  | .ok result => combined.merge result
  | .error exn =>
    { combined with toPipelineResult := combined.toPipelineResult.fail s!"{fileName job.1}: {exn.typeName}: {exn.msg}" }

/-- `completed` lists the jobs as `as_completed` yields them. -/
def processParallel (cpuCount : Option Nat) (workers : Int) (paths : List String) (completed : List (String × Nat)) :
    Except Exn WorkerResult :=
  if effectiveWorkerCount cpuCount workers paths.length = 1 then sequential run paths.zipIdx {}
  else .ok { completed.foldl (collect fileName run) {} with sources := paths }

end

/-! ## Totals -/

/-- What is known of `k`: a dictionary's value, if it has one. -/
def entry (k : String) (counts : List (String × Nat)) : Option Nat :=
  if k ∈ counts.map Prod.fst then some (count k counts) else none

/-- A combined result without the order in which it was combined. -/
@[ext] structure Totals where
  linesRead : Nat
  recordsParsed : Nat
  recordsValid : Nat
  recordsRejected : Nat
  recordsDuplicate : Nat
  recordsWritten : Nat
  bytesRead : Nat
  rejectionReasons : String → Option Nat
  succeeded : Bool
  peakMemoryMb : ℚ
  outputs : Multiset String
  errors : Multiset String
  stages : Multiset StageStats

def totals (r : WorkerResult) : Totals where
  linesRead := r.linesRead
  recordsParsed := r.recordsParsed
  recordsValid := r.recordsValid
  recordsRejected := r.recordsRejected
  recordsDuplicate := r.recordsDuplicate
  recordsWritten := r.recordsWritten
  bytesRead := r.bytesRead
  rejectionReasons k := entry k r.rejectionReasons
  succeeded := r.succeeded
  peakMemoryMb := r.peakMemoryMb
  outputs := r.outputs
  errors := r.errors
  stages := r.stages

namespace Totals

def add (a b : Totals) : Totals where
  linesRead := a.linesRead + b.linesRead
  recordsParsed := a.recordsParsed + b.recordsParsed
  recordsValid := a.recordsValid + b.recordsValid
  recordsRejected := a.recordsRejected + b.recordsRejected
  recordsDuplicate := a.recordsDuplicate + b.recordsDuplicate
  recordsWritten := a.recordsWritten + b.recordsWritten
  bytesRead := a.bytesRead + b.bytesRead
  rejectionReasons k := (a.rejectionReasons k).merge (· + ·) (b.rejectionReasons k)
  succeeded := a.succeeded && b.succeeded
  peakMemoryMb := max a.peakMemoryMb b.peakMemoryMb
  outputs := a.outputs + b.outputs
  errors := a.errors + b.errors
  stages := a.stages + b.stages

theorem merge_comm (a b : Option Nat) : a.merge (· + ·) b = b.merge (· + ·) a := by
  cases a <;> cases b <;> simp [Nat.add_comm]

theorem merge_assoc (a b c : Option Nat) : (a.merge (· + ·) b).merge (· + ·) c = a.merge (· + ·) (b.merge (· + ·) c) := by
  cases a <;> cases b <;> cases c <;> simp [Nat.add_assoc]

theorem comm (a b : Totals) : a.add b = b.add a := by
  ext1
  case rejectionReasons => funext k; exact merge_comm _ _
  case succeeded => exact Bool.and_comm _ _
  case peakMemoryMb => exact max_comm _ _
  case outputs | errors | stages => exact Multiset.add_comm _ _
  all_goals exact Nat.add_comm _ _

theorem assoc (a b c : Totals) : (a.add b).add c = a.add (b.add c) := by
  ext1
  case rejectionReasons => funext k; exact merge_assoc _ _ _
  case succeeded => exact Bool.and_assoc _ _ _
  case peakMemoryMb => exact max_assoc _ _ _
  case outputs | errors | stages => exact Multiset.add_assoc _ _ _
  all_goals exact Nat.add_assoc _ _ _

end Totals

theorem mem_addCount (k k' : String) (n : Nat) (counts : List (String × Nat)) :
    k ∈ (addCount k' n counts).map Prod.fst ↔ k ∈ counts.map Prod.fst ∨ k = k' := by
  induction counts with
  | nil => simp [addCount]
  | cons c rest ih =>
    obtain ⟨k₁, m⟩ := c
    rw [addCount]
    by_cases h : k₁ = k'
    · subst h
      simp [or_comm]
    · rw [if_neg h, List.map_cons, List.mem_cons, ih, List.map_cons, List.mem_cons, or_assoc]

theorem mem_addCounts (k : String) (more : List (String × Nat)) :
    ∀ counts, k ∈ (addCounts counts more).map Prod.fst ↔ k ∈ counts.map Prod.fst ∨ k ∈ more.map Prod.fst := by
  induction more with
  | nil => intro counts; simp [addCounts]
  | cons c more ih =>
    intro counts
    have h : addCounts counts (c :: more) = addCounts (addCount c.1 c.2 counts) more := rfl
    rw [h, ih, mem_addCount, List.map_cons, List.mem_cons, or_assoc]

theorem count_eq_zero {k : String} {counts : List (String × Nat)} (h : k ∉ counts.map Prod.fst) : count k counts = 0 := by
  induction counts with
  | nil => rfl
  | cons c rest ih =>
    obtain ⟨k', n⟩ := c
    rw [List.map_cons, List.mem_cons, not_or] at h
    rw [count, if_neg (Ne.symm h.1), ih h.2]

/-- Merging two dictionaries adds the values of the keys they share. -/
theorem entry_addCounts (k : String) (counts more : List (String × Nat)) :
    entry k (addCounts counts more) = (entry k counts).merge (· + ·) (entry k more) := by
  simp only [entry, mem_addCounts, count_addCounts]
  by_cases hc : k ∈ counts.map Prod.fst <;> by_cases hm : k ∈ more.map Prod.fst
  · rw [if_pos (.inl hc), if_pos hc, if_pos hm]; rfl
  · rw [if_pos (.inl hc), if_pos hc, if_neg hm, count_eq_zero hm]; rfl
  · rw [if_pos (.inr hm), if_neg hc, if_pos hm, count_eq_zero hc, Nat.zero_add]; rfl
  · rw [if_neg (not_or.2 ⟨hc, hm⟩), if_neg hc, if_neg hm]; rfl

/-- `merge` is addition of totals. -/
theorem totals_merge (r other : WorkerResult) : totals (r.merge other) = (totals r).add (totals other) := by
  ext1
  case rejectionReasons => funext k; exact entry_addCounts k _ _
  all_goals rfl

/-! ## Any order -/

variable {fileName : String → String} {run : Nat → String → Except Exn WorkerResult}

/-- What a finished worker does to the totals. -/
def tally (fileName : String → String) (run : Nat → String → Except Exn WorkerResult) (t : Totals) (job : String × Nat) :
    Totals :=
  match run job.2 job.1 with
  | .ok result => t.add (totals result)
  | .error exn =>
    { t with succeeded := false, errors := t.errors + {s!"{fileName job.1}: {exn.typeName}: {exn.msg}"} }

theorem totals_collect (r : WorkerResult) (job : String × Nat) :
    totals (collect fileName run r job) = tally fileName run (totals r) job := by
  rw [collect, tally]
  cases run job.2 job.1 with
  | ok result => exact totals_merge r result
  | error exn =>
    ext1
    case errors => exact (Multiset.coe_add _ _).symm
    all_goals rfl

/-- It does not matter which of two workers is done first. -/
theorem tally_comm (t : Totals) (a b : String × Nat) :
    tally fileName run (tally fileName run t a) b = tally fileName run (tally fileName run t b) a := by
  simp only [tally]
  cases run a.2 a.1 with
  | ok p =>
    cases run b.2 b.1 with
    | ok q => dsimp only; rw [Totals.assoc, Totals.comm (totals p), Totals.assoc]
    | error exn =>
      ext1
      case errors => exact add_right_comm _ _ _
      all_goals rfl
  | error exn =>
    cases run b.2 b.1 with
    | ok q =>
      ext1
      case errors => exact add_right_comm _ _ _
      all_goals rfl
    | error exn' =>
      ext1
      case errors => exact add_right_comm _ _ _
      all_goals rfl

theorem totals_foldl (jobs : List (String × Nat)) :
    ∀ r, totals (jobs.foldl (collect fileName run) r) = jobs.foldl (tally fileName run) (totals r) := by
  induction jobs with
  | nil => intro r; rfl
  | cons job jobs ih =>
    intro r
    rw [List.foldl_cons, ih, totals_collect, List.foldl_cons]

/-- The order in which the workers finish does not matter, whether they raise or not. -/
theorem completed_perm {p q : List (String × Nat)} (h : p.Perm q) (r : WorkerResult) :
    totals (p.foldl (collect fileName run) r) = totals (q.foldl (collect fileName run) r) := by
  rw [totals_foldl, totals_foldl]
  exact h.foldl_eq' (fun a _ b _ t => tally_comm t a b) _

/-- Runs that return are merged one after the other. -/
theorem sequential_eq (fileName : String → String) (results : Nat → String → WorkerResult) (jobs : List (String × Nat)) :
    ∀ r, sequential (fun index path => .ok (results index path)) jobs r =
      .ok (jobs.foldl (collect fileName fun index path => .ok (results index path)) r) := by
  induction jobs with
  | nil => intro r; rfl
  | cons job jobs ih => intro r; exact ih _

/-- For runs that return, the combined result is that of one worker, up to order, for every number
of workers and every order in which they finish; merging is associative and commutative. -/
theorem parallel_order_independent (results : Nat → String → WorkerResult) (cpuCount : Option Nat) (workers : Int)
    (paths : List String) {completed : List (String × Nat)} (hcompleted : completed.Perm paths.zipIdx) :
    (∃ r s, processParallel fileName (fun index path => .ok (results index path)) cpuCount workers paths completed = .ok r ∧
      processParallel fileName (fun index path => .ok (results index path)) cpuCount 1 paths completed = .ok s ∧
      totals r = totals s) ∧
    ∀ a b c : WorkerResult, totals (a.merge b) = totals (b.merge a) ∧
      totals ((a.merge b).merge c) = totals (a.merge (b.merge c)) := by
  constructor
  · have hone : effectiveWorkerCount cpuCount 1 paths.length = 1 := by
      simp only [effectiveWorkerCount]
      omega
    have hsequential := sequential_eq fileName results paths.zipIdx {}
    have hstart : processParallel fileName (fun index path => .ok (results index path)) cpuCount 1 paths completed =
        .ok (paths.zipIdx.foldl (collect fileName fun index path => .ok (results index path)) {}) := by
      rw [processParallel, if_pos hone, hsequential]
    by_cases hcount : effectiveWorkerCount cpuCount workers paths.length = 1
    · exact ⟨_, _, by rw [processParallel, if_pos hcount, hsequential], hstart, rfl⟩
    · refine ⟨_, _, if_neg hcount, hstart, ?_⟩
      exact completed_perm hcompleted {}
  · intro a b c
    constructor
    · rw [totals_merge, totals_merge, Totals.comm]
    · rw [totals_merge, totals_merge, totals_merge, totals_merge, Totals.assoc]

/-- Two workers, the second file done first. -/
theorem parallel_order_independent_two :
    (∃ r s, processParallel id (fun index path => .ok { linesRead := index, outputs := [path] }) (some 8) 2 ["a", "b"]
        [("b", 1), ("a", 0)] = .ok r ∧
      processParallel id (fun index path => .ok { linesRead := index, outputs := [path] }) (some 8) 1 ["a", "b"]
        [("b", 1), ("a", 0)] = .ok s ∧ totals r = totals s) :=
  (parallel_order_independent (fun index path => { linesRead := index, outputs := [path] }) (some 8) 2 ["a", "b"]
    (List.Perm.swap _ _ _)).1

end ParallelRun

end LogAnalytics
