import LogAnalytics.Lib.Like
import LogAnalytics.Search.Compile
import LogAnalytics.Search.Service
/-!
# Filters in search and in analytics

`AnalyticsEngine._scope` compiles the filter map of a request a second time, next to
`compile_filters`. What a predicate selects is SQL: a comparison with NULL is not true, `ILIKE`
compares without regard to case (`fold` says how DuckDB folds a character).
-/
open LogAnalytics.Lib

namespace LogAnalytics

open Search

variable {F : Type}

/-! ## Rows -/

/-- A stored row, with its text columns. -/
abbrev TextRow := Row (Column → Option Text)

/-- The value of a text column. -/
def Search.Row.cell (row : TextRow) : Column → Option Text
  | .eventId => some row.eventId
  | column => row.columns column

/-! ## Search -/

/-- `value ILIKE pattern ESCAPE '\'` -/
def ilike (fold : CodePoint → CodePoint) (value pattern : Text) : Bool :=
  Like.matchItems (fun c x => fold c = fold x) (Like.parse (chr '\\') (chr '%') (chr '_') pattern) value

/-- The comparison is true of the row; only `=`, `IN` and `ILIKE` are made of a filter map. -/
def Search.Comparison.selects (fold : CodePoint → CodePoint) (c : Comparison F) (row : TextRow) : Bool :=
  match row.cell c.column with
  | none => false
  | some value =>
    if c.values ≠ [] then c.values.any fun v => match v with
      | .text t => t = value
      | _ => false
    else
      match c.operator.sql, c.value with
      | none, some (.text pattern) => ilike fold value pattern
      | some "=", some (.text t) => t = value
      | _, _ => false

/-- `Comparison.selects` of a node that is one. -/
def Search.Node.comparisonSelects (fold : CodePoint → CodePoint) (row : TextRow) : Node F → Bool
  | .comparison c => c.selects fold row
  | _ => false

/-- The predicate of a tree of comparisons joined by AND is true of the row. -/
def Search.Node.selects (fold : CodePoint → CodePoint) (row : TextRow) : Node F → Bool
  | .boolOp .and nodes => nodes.all (comparisonSelects fold row)
  | n => n.comparisonSelects fold row

/-- The rows the listing is made from: without a predicate, all in the range. -/
def searchRows (fold : CodePoint → CodePoint) (tree : Option (Node F)) (range : Clock × Clock) (rows : List TextRow) :
    List TextRow :=
  rows.filter fun row => inRange range row && tree.all (·.selects fold row)

/-! ## Analytics -/

/-- `validate_column`; the message quotes the name as well. -/
def validateColumn (name : Text) : Except Exn Column :=
  match Column.all.find? fun c => Text.ofString c.name = name with
  | some column => .ok column
  | none => .error ⟨.other "QueryError", "unknown column"⟩

/-- A clause of `_scope`. -/
inductive Clause where
  | eq (column : Column) (value : Text)
  | oneOf (column : Column) (values : List Text)

namespace Clause

def sql : Clause → String
  | eq column _ => column.name ++ " = ?"
  | oneOf column values => column.name ++ " IN (" ++ joinStrings ", " (values.map fun _ => "?") ++ ")"

def params : Clause → List Text
  | eq _ value => [value]
  | oneOf _ values => values

def selects (row : TextRow) : Clause → Bool
  | eq column value => row.cell column = some value
  | oneOf column values => values.any fun value => row.cell column = some value

end Clause

/-- The loop of `_scope` over the filters. -/
def scopeClauses : List (Text × FilterValue) → Except Exn (List Clause)
  | [] => .ok []
  | (_, .none) :: filters => scopeClauses filters
  | (name, .scalar text) :: filters => do
    let column ← validateColumn name
    let clauses ← scopeClauses filters
    .ok (.eq column text :: clauses)
  | (name, .list texts) :: filters => do
    let column ← validateColumn name
    let clauses ← scopeClauses filters
    .ok (if texts = [] then clauses else .oneOf column texts :: clauses)

/-- A bound parameter of `_scope`. -/
inductive ScopeParam where
  | time (c : Clock)
  | text (t : Text)

structure Scope where
  predicate : String
  params : List ScopeParam
  range : Clock × Clock

/-- `_scope`, without the scan: a range with no files has no rows. -/
def scope (range : Clock × Clock) (filters : List (Text × FilterValue)) : Except Exn Scope :=
  (scopeClauses filters).map fun clauses =>
    { predicate := joinStrings " AND " ("timestamp >= ?" :: "timestamp <= ?" :: clauses.map Clause.sql)
      params := .time range.1 :: .time range.2 :: (clauses.flatMap Clause.params).map .text
      range := range }

/-- The rows a view is computed from. -/
def scopeRows (clauses : List Clause) (range : Clock × Clock) (rows : List TextRow) : List TextRow :=
  rows.filter fun row => inRange range row && clauses.all (·.selects row)

end LogAnalytics
