import Mathlib.Data.Rat.Init
import LogAnalytics.Lib.Counter
import LogAnalytics.Models.Enums
import LogAnalytics.Models.Text
/-!
# Rejections and run statistics

`RejectedRecord`, the dead-letter payload, and `PipelineResult`, the counters of one run.
-/
open LogAnalytics.Lib

namespace LogAnalytics

/-- A record that failed a stage. `partialRow` is what the source calls `partial`, when a parsed
event was rejected. -/
structure RejectedRecord (P τ : Type) where
  reason : RejectReason
  stage : String
  detail : Text
  source : Text
  lineNumber : Option Nat
  raw : Text
  rawHash : String
  rejectedAt : τ
  partialRow : Option P
  deriving DecidableEq

/-- Counters for a single stage. -/
structure StageStats where
  name : String
  processed : Nat := 0
  passed : Nat := 0
  rejected : Nat := 0
  deriving DecidableEq, Repr

/-- Outcome of one run. -/
structure PipelineResult where
  linesRead : Nat := 0
  recordsParsed : Nat := 0
  recordsValid : Nat := 0
  recordsRejected : Nat := 0
  recordsDuplicate : Nat := 0
  recordsWritten : Nat := 0
  rejectionReasons : List (String × Nat) := []
  stages : List StageStats := []
  outputs : List String := []
  errors : List String := []
  succeeded : Bool := true
  deriving DecidableEq, Repr

namespace PipelineResult

/-- The quotient is exact here. -/
def rejectionRate (r : PipelineResult) : ℚ :=
  let total := r.recordsParsed + r.recordsRejected
  if total = 0 then 0 else (r.recordsRejected : ℚ) / total

def recordRejection (r : PipelineResult) (reason : RejectReason) : PipelineResult :=
  { r with
    rejectionReasons := increment reason.toStr r.rejectionReasons
    recordsRejected := r.recordsRejected + 1 }

/-- `errors.append(...)` of a failed run. -/
def fail (r : PipelineResult) (error : String) : PipelineResult :=
  { r with succeeded := false, errors := r.errors ++ [error] }

/-- Fold a partial result into this one. -/
def merge (r other : PipelineResult) : PipelineResult where
  linesRead := r.linesRead + other.linesRead
  recordsParsed := r.recordsParsed + other.recordsParsed
  recordsValid := r.recordsValid + other.recordsValid
  recordsRejected := r.recordsRejected + other.recordsRejected
  recordsDuplicate := r.recordsDuplicate + other.recordsDuplicate
  recordsWritten := r.recordsWritten + other.recordsWritten
  rejectionReasons := addCounts r.rejectionReasons other.rejectionReasons
  stages := r.stages ++ other.stages
  outputs := r.outputs ++ other.outputs
  errors := r.errors ++ other.errors
  succeeded := r.succeeded && other.succeeded

/-- How often records were rejected for a reason. -/
def rejectedFor (reason : String) (r : PipelineResult) : Nat := count reason r.rejectionReasons

/-- A number a merge adds up. -/
inductive IsCounter : (PipelineResult → Nat) → Prop
  | linesRead : IsCounter linesRead
  | recordsParsed : IsCounter recordsParsed
  | recordsValid : IsCounter recordsValid
  | recordsRejected : IsCounter recordsRejected
  | recordsDuplicate : IsCounter recordsDuplicate
  | recordsWritten : IsCounter recordsWritten
  | rejectedFor (reason : String) : IsCounter (rejectedFor reason)

theorem IsCounter.merge {c : PipelineResult → Nat} (hc : IsCounter c) (r other : PipelineResult) :
    c (r.merge other) = c r + c other := by
  cases hc with
  | rejectedFor reason => exact count_addCounts reason _ _
  | _ => rfl

/-- Merging results one after the other sums every counter. -/
theorem IsCounter.mergeAll {c : PipelineResult → Nat} (hc : IsCounter c) (parts : List PipelineResult) :
    ∀ r, c (parts.foldl PipelineResult.merge r) = c r + (parts.map c).sum := by
  induction parts with
  | nil => intro r; rfl
  | cons part parts ih =>
    intro r
    rw [List.foldl_cons, ih, hc.merge, List.map_cons, List.sum_cons, Nat.add_assoc]

end PipelineResult

end LogAnalytics
