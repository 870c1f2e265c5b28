import LogAnalytics.Exn
import LogAnalytics.Models.Results
/-!
# The dead-letter queue

`DeadLetterQueue.record`: mask, check against the schema of `RejectedRecord`, count, and
append a row unless the queue is disabled or full. Only an appended row needs the file system,
which may fail (`DlqFaults`).
-/
open LogAnalytics.Lib

namespace LogAnalytics

/-- What a queue is built with. -/
structure DlqConfig (P : Type) where
  maskText : Text → Text
  maskMapping : P → P
  contentHash : Text → String
  /-- What the schema says of a text it cannot take. -/
  refusal : String
  maxRecords : Nat
  enabled : Bool

/-- What raises while a row is appended: opening or writing the file, or the flush that is due
every `FLUSH_EVERY` rows. -/
structure DlqFaults where
  write : Option Exn := none
  flush : Option Exn := none

structure DeadLetterQueue (P τ : Type) where
  counts : List (String × Nat) := []
  /-- The rows in the files, oldest first. -/
  rows : List (RejectedRecord P τ) := []
  written : Nat := 0
  dropped : Nat := 0
  sinceFlush : Nat := 0

/-- A rejection as `record` is given it. -/
structure Rejection (P : Type) where
  raw : Text
  reason : RejectReason
  stage : String
  detail : Text
  source : Text
  lineNumber : Option Nat := none
  partialRow : Option P := none

namespace DeadLetterQueue

variable {P τ : Type}

/-- `FLUSH_EVERY` -/
def flushEvery : Nat := 500

def total (q : DeadLetterQueue P τ) : Nat := Lib.total q.counts

/-- The masked record, if the schema takes it: its texts must be encodable. -/
def rejected (c : DlqConfig P) (now : τ) (r : Rejection P) : Except Exn (RejectedRecord P τ) :=
  let detail := (c.maskText r.detail).take 1024
  let raw := (c.maskText r.raw).take 131072
  if Text.encodable detail && Text.encodable r.source && Text.encodable raw then
    .ok { reason := r.reason, stage := r.stage, detail := detail, source := r.source, lineNumber := r.lineNumber,
          raw := raw, rawHash := if raw.isEmpty then "" else c.contentHash raw, rejectedAt := now,
          partialRow := r.partialRow.map c.maskMapping }
  else .error ⟨.validationError, c.refusal⟩

/-- `_write`: the count stays exact whatever happens to the row. -/
def write (c : DlqConfig P) (faults : DlqFaults) (q : DeadLetterQueue P τ) (r : RejectedRecord P τ) :
    Except Exn Unit × DeadLetterQueue P τ :=
  let q := { q with counts := increment r.reason.toStr q.counts }
  if !c.enabled then (.ok (), q)
  else if c.maxRecords ≤ q.written then (.ok (), { q with dropped := q.dropped + 1 })
  else
    match faults.write with
    | some exn => (.error exn, q)
    | none =>
      let q := { q with rows := q.rows ++ [r], written := q.written + 1, sinceFlush := q.sinceFlush + 1 }
      if flushEvery ≤ q.sinceFlush then
        match faults.flush with
        | some exn => (.error exn, q)
        | none => (.ok (), { q with sinceFlush := 0 })
      else (.ok (), q)

/-- Register one rejection and persist it. -/
def record (c : DlqConfig P) (now : τ) (faults : DlqFaults) (q : DeadLetterQueue P τ) (r : Rejection P) :
    Except Exn (RejectedRecord P τ) × DeadLetterQueue P τ :=
  match rejected c now r with
  | .error exn => (.error exn, q)
  | .ok row =>
    let (done, q) := write c faults q row
    (done.map fun _ => row, q)

/-- The file system takes the row, if there is one to append. -/
def CanAppend (c : DlqConfig P) (faults : DlqFaults) (q : DeadLetterQueue P τ) : Prop :=
  c.enabled = true → q.written < c.maxRecords →
    faults.write = none ∧ (flushEvery ≤ q.sinceFlush + 1 → faults.flush = none)

theorem canAppend_default (c : DlqConfig P) (q : DeadLetterQueue P τ) : CanAppend c {} q := fun _ _ => ⟨rfl, fun _ => rfl⟩

/-- Only the file system can make `_write` raise. -/
theorem write_ok_iff {c : DlqConfig P} {faults : DlqFaults} {q : DeadLetterQueue P τ} {r : RejectedRecord P τ} :
    (write c faults q r).1 = .ok () ↔ CanAppend c faults q := by
  unfold write CanAppend
  cases c.enabled with
  | false => simp
  | true =>
    dsimp only
    by_cases hfull : c.maxRecords ≤ q.written
    · simp [hfull, Nat.not_lt.2 hfull]
    · have hlt := Nat.not_le.1 hfull
      rcases faults with ⟨_ | exn, flush⟩
      · by_cases hdue : flushEvery ≤ q.sinceFlush + 1
        · cases flush <;> simp [hfull, hlt, hdue]
        · simp [hfull, hdue]
      · simp [hfull, hlt]

/-- Every rejection is counted. -/
theorem total_write (c : DlqConfig P) (faults : DlqFaults) (q : DeadLetterQueue P τ) (r : RejectedRecord P τ) :
    (write c faults q r).2.total = q.total + 1 := by
  have htotal := total_increment r.reason.toStr q.counts
  unfold write
  dsimp only
  split
  · exact htotal
  · split
    · exact htotal
    · split
      · exact htotal
      · split
        · split <;> exact htotal
        · exact htotal

/-- Where there is room the row is the next one. -/
theorem rows_write {c : DlqConfig P} {faults : DlqFaults} {q : DeadLetterQueue P τ} {r : RejectedRecord P τ}
    (ha : CanAppend c faults q) (henabled : c.enabled = true) (hroom : q.written < c.maxRecords) :
    (write c faults q r).2.rows = q.rows ++ [r] := by
  obtain ⟨hwrite, hflush⟩ := ha henabled hroom
  unfold write
  simp only [henabled, Bool.not_true, Bool.false_eq_true, if_false, Nat.not_le.2 hroom, hwrite]
  split
  · next hdue => simp [hflush hdue]
  · rfl

/-- The schema takes a rejection whose texts can be encoded. -/
theorem rejected_eq_ok {c : DlqConfig P} {now : τ} {r : Rejection P} :
    (∃ row, rejected c now r = .ok row) ↔ Text.encodable ((c.maskText r.detail).take 1024) = true ∧
      Text.encodable r.source = true ∧ Text.encodable ((c.maskText r.raw).take 131072) = true := by
  unfold rejected
  dsimp only
  split
  · next h => simpa [and_assoc] using h
  · next h => simpa [and_assoc] using h

theorem record_ok {c : DlqConfig P} {now : τ} {faults : DlqFaults} {q : DeadLetterQueue P τ} {r : Rejection P}
    {row : RejectedRecord P τ} (h : rejected c now r = .ok row) (ha : CanAppend c faults q) :
    (record c now faults q r).1 = .ok row := by
  simp only [record, h, write_ok_iff.2 ha]
  rfl

end DeadLetterQueue

end LogAnalytics
