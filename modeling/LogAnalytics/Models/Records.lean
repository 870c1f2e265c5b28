import LogAnalytics.Models.Enums
import LogAnalytics.Models.Text
/-!
# Records before parsing

`RawRecord`, one unit of input, and `ParseContext`, what a parser knows about where it came
from. Of the free-form `extra` of a context only the CSV header is ever filled in.
-/

namespace LogAnalytics

/-- A raw line, or a record that came structured. -/
inductive Payload (R : Type) where
  | text (line : Text)
  | mapping (record : R)

structure RawRecord (R : Type) where
  payload : Payload R
  source : Text := Text.ofString "unknown"
  lineNumber : Option Nat := none
  /-- `context["header"]` -/
  header : Option (List Text) := none

structure ParseContext where
  source : Text := Text.ofString "unknown"
  sourceType : SourceType := .unknown
  defaultService : Option Text := none
  defaultHostname : Option Text := none
  environment : Environment := .unknown
  lineNumber : Option Nat := none
  keepRaw : Bool := true
  /-- The year of formats that omit it. -/
  defaultYear : Option Nat := none
  /-- `extra["header"]` -/
  header : Option (List Text) := none
  deriving DecidableEq

/-- The context a record is parsed in: its line number, its `context` merged into `extra`. -/
def ParseContext.enter {R : Type} (c : ParseContext) (record : RawRecord R) : ParseContext :=
  { c with lineNumber := record.lineNumber, header := record.header.or c.header }

end LogAnalytics
