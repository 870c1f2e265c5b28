import LogAnalytics.Models.Enums
/-!
# Validation outcomes

What `RecordValidator.validate` returns and its callers read: the issues found, in rule
order, and whether one of them is fatal.
-/

namespace LogAnalytics

inductive IssueSeverity where
  | warning | error
  deriving DecidableEq, Repr

structure ValidationIssue where
  rule : String
  reason : RejectReason
  severity : IssueSeverity := .error
  detail : String := ""
  deriving DecidableEq, Repr

def ValidationIssue.isFatal (i : ValidationIssue) : Bool := i.severity = .error

structure ValidationResult where
  valid : Bool
  issues : List ValidationIssue := []
  deriving DecidableEq, Repr

def ValidationResult.fatalIssue (r : ValidationResult) : Option ValidationIssue :=
  r.issues.find? (·.isFatal)

/-- The reason a rejected record is filed under. -/
def ValidationResult.reason (r : ValidationResult) : RejectReason :=
  match r.fatalIssue with
  | some issue => issue.reason
  | none => .schemaViolation

/-- The detail a rejected record is filed with. -/
def ValidationResult.detail (r : ValidationResult) : String :=
  match r.fatalIssue with
  | some issue => issue.detail
  | none => ""

end LogAnalytics
