import LogAnalytics.Lib.ThreeValued
import LogAnalytics.Search.Patterns
import LogAnalytics.Search.RoundTrip
/-!
# What a query selects

The predicate of a tree, evaluated on a stored row: a comparison with a NULL is unknown, and a
row is selected when the predicate is true. `!=` with a `*` in its value has lost its negation.
-/
open LogAnalytics.Lib

namespace LogAnalytics.Search

variable {F : Type}

/-! ## Comparisons -/

/-- What the database makes of the values it compares. -/
structure Database (F : Type) where
  /-- How `ILIKE` folds a character. -/
  fold : CodePoint → CodePoint
  equal : Value F → Value F → Bool
  less : Value F → Value F → Bool
  /-- `::VARCHAR` -/
  varchar : Value F → Text
  equal_text : ∀ t t', equal (.text t) (.text t') = decide (t = t')
  varchar_text : ∀ t, varchar (.text t) = t

/-- The columns of a stored row; `none` is a NULL. -/
abbrev Cells (F : Type) := Column → Option (Value F)

/-- `cell op value`; the value bound to `ILIKE` is a pattern. -/
def Operator.holds (db : Database F) : Operator → (cell value : Value F) → Bool
  | .eq, cell, value | .eqEq, cell, value | .colon, cell, value => db.equal cell value
  | .ne, cell, value | .ltGt, cell, value => !db.equal cell value
  | .gt, cell, value => db.less value cell
  | .ge, cell, value => db.less value cell || db.equal cell value
  | .lt, cell, value => db.less cell value
  | .le, cell, value => db.less cell value || db.equal cell value
  | .tilde, cell, .text pattern => ilike db.fold (db.varchar cell) pattern
  | .tilde, _, _ => false

theorem Operator.holds_equal (db : Database F) {op : Operator} (h : op.takesList = true) :
    op.sql = some "=" ∧ ∀ cell value, op.holds db cell value = db.equal cell value := by
  cases op <;> first | exact ⟨rfl, fun _ _ => rfl⟩ | cases h

def Comparison.truth (db : Database F) (row : Cells F) (c : Comparison F) : Truth :=
  match row c.column with
  | none => none
  | some cell => if c.values ≠ [] then some (c.values.any (db.equal cell)) else c.value.map (c.operator.holds db cell)

/-! ## Trees -/

mutual

/-- The predicate of a tree; free text asks two columns. -/
def Node.formula : Node F → Formula (Comparison F)
  | .comparison c => .atom c
  | .freeText value =>
    let pattern : Value F := .text (chr '%' :: escapeLike value ++ [chr '%'])
    .disj [.atom { column := .message, operator := .tilde, value := some pattern },
      .atom { column := .rawMessage, operator := .tilde, value := some pattern }]
  | .not child => .not child.formula
  | .boolOp .and children => .conj (formulas children)
  | .boolOp .or children => .disj (formulas children)

def formulas : List (Node F) → List (Formula (Comparison F))
  | [] => []
  | child :: children => child.formula :: formulas children

end

def Node.truth (db : Database F) (row : Cells F) (n : Node F) : Truth := n.formula.eval (Comparison.truth db row)

/-- A row is selected when the predicate is TRUE. -/
def Node.selected (db : Database F) (row : Cells F) (n : Node F) : Prop := n.truth db row = some true

instance (db : Database F) (row : Cells F) (n : Node F) : Decidable (n.selected db row) :=
  inferInstanceAs (Decidable (_ = _))

mutual

/-- The placeholders of the compiled predicate are bound to the values of its comparisons, in order. -/
theorem formula_params : ∀ n : Node F, n.compile.2 = n.formula.atoms.flatMap fun c => c.compile.2
  | .comparison c => by simp [Node.compile, Node.formula, Formula.atoms]
  | .freeText value => by
    simp [Node.compile, Node.formula, Formula.atoms, Formula.atomsAll, Comparison.compile, Operator.sql]
  | .not child => by
    rw [Node.compile, Node.formula, Formula.atoms]
    exact formula_params child
  | .boolOp .and children => by
    rw [Node.compile, Node.formula, Formula.atoms]
    exact formulas_params children
  | .boolOp .or children => by
    rw [Node.compile, Node.formula, Formula.atoms]
    exact formulas_params children

theorem formulas_params : ∀ ns : List (Node F),
    (compileAll ns).2 = (Formula.atomsAll (formulas ns)).flatMap fun c => c.compile.2
  | [] => rfl
  | child :: children => by
    rw [compileAll, formulas, Formula.atomsAll, List.flatMap_append, formula_params child, formulas_params children]

end

/-- On text columns this is what a filter map selects. -/
theorem truth_selects (db : Database F) (row : TextRow) {c : Comparison F} (hvalues : ∀ v ∈ c.values, ∃ t, v = .text t)
    (hop : c.operator.takesList = true ∨ c.operator = .tilde) (hvalue : ∀ v ∈ c.value, ∃ t, v = .text t) :
    c.truth db (fun column => (row.cell column).map .text) = some true ↔ c.selects db.fold row = true := by
  unfold Comparison.truth Comparison.selects
  dsimp only
  cases row.cell c.column with
  | none => simp
  | some cell =>
    dsimp only [Option.map_some]
    by_cases hlist : c.values = []
    · rw [if_neg (by simpa using hlist), if_neg (by simpa using hlist)]
      cases hv : c.value with
      | none => cases hsql : c.operator.sql <;> simp
      | some v =>
        obtain ⟨t, rfl⟩ := hvalue v hv
        rcases hop with hop | hop
        · obtain ⟨hsql, hholds⟩ := Operator.holds_equal db hop
          simp [hsql, hholds, db.equal_text, eq_comm]
        · simp [hop, Operator.holds, Operator.sql, db.varchar_text]
    · rw [if_pos hlist, if_pos hlist, Option.some.injEq, List.any_eq_true, List.any_eq_true]
      refine exists_congr fun v => and_congr_right fun hv => ?_
      obtain ⟨t, rfl⟩ := hvalues v hv
      simp [db.equal_text, eq_comm]

/-! ## Equality and inequality -/

/-- `c op value` for a text column: the operator is kept unless the value has a `*`. -/
theorem parse_single (b : Builtins F) {c : Column} (hstring : c.isString = true) {op : Operator} (hop : op ≠ .tilde)
    {v : Token} (hvalue : v.isValue = true) (hshort : v.value.length ≤ maxValueLength) (p q : Nat) :
    parse b [⟨.word, Text.ofString c.name, p⟩, ⟨.op, Text.ofString op.text, q⟩, v] = .ok (some (.comparison
      (if chr '*' ∈ v.value then { column := c, operator := .tilde, value := some (.text (toLikePattern v.value)) }
      else { column := c, operator := op, value := some (.text v.value) }))) := by
  have hnumeric : c.isNumeric = false := by
    rw [Column.isString, Bool.and_eq_true] at hstring
    simpa using hstring.1
  have hbuild : buildComparison b c (Text.ofString op.text) [v.value] = .ok
      (if chr '*' ∈ v.value then { column := c, operator := .tilde, value := some (.text (toLikePattern v.value)) }
      else { column := c, operator := op, value := some (.text v.value) }) := by
    rw [buildComparison, Operator.ofText_text]
    by_cases hstar : chr '*' ∈ v.value
    · simp [hstar, hnumeric]
    · simp [hstar, hop, coerce_string hstring, Bind.bind, Except.bind]
  have hterm : Derives b .term (⟨.word, Text.ofString c.name, p⟩ :: ⟨.op, Text.ofString op.text, q⟩ :: [v]) _ 0 1 :=
    .comparison rfl (c.isNot_name b p) rfl (resolveColumn_name b c) (.one hvalue hshort) (by simp [maxInValues]) hbuild
  exact (Derives.conj (.one hterm)).parse (by simp [maxDepth]) (by simp [maxNodes])

/-- The two comparisons of a value are complements on a row that has a text in the column, if the
value has no `*`. With one, both are the same comparison. -/
theorem ne_complements_eq (b : Builtins F) (db : Database F) {c : Column} (hstring : c.isString = true)
    {op op' : Operator} (hop : op.takesList = true) (hop' : op' = .ne ∨ op' = .ltGt) {v : Token} (hvalue : v.isValue = true)
    (hshort : v.value.length ≤ maxValueLength) (p q p' q' r : Nat) {row : Cells F} {cell : Text}
    (hcell : row c = some (.text cell)) : ∃ n m : Node F,
      parse b [⟨.word, Text.ofString c.name, p⟩, ⟨.op, Text.ofString op.text, q⟩, v] = .ok (some n) ∧
      parse b [⟨.word, Text.ofString c.name, p'⟩, ⟨.op, Text.ofString op'.text, q'⟩, { v with position := r }] =
        .ok (some m) ∧
      ((n.selected db row ↔ ¬ m.selected db row) ↔ chr '*' ∉ v.value) := by
  have htilde : op ≠ .tilde ∧ op' ≠ .tilde := by
    refine ⟨?_, ?_⟩
    · rintro rfl
      cases hop
    · rcases hop' with rfl | rfl <;> simp
  have hmoved : ({ v with position := r } : Token).isValue = true := hvalue
  refine ⟨_, _, parse_single b hstring htilde.1 hvalue hshort p q, parse_single b hstring htilde.2 hmoved hshort p' q', ?_⟩
  by_cases hstar : chr '*' ∈ v.value
  · simp only [if_pos hstar]
    exact iff_of_false (fun h => iff_not_self h) (fun h => h hstar)
  · simp only [if_neg hstar]
    refine iff_of_true ?_ hstar
    have heq : ∀ o : Operator, (Node.comparison ⟨c, o, some (.text v.value), []⟩).selected db row ↔
        o.holds db (.text cell) (.text v.value) = true := by
      intro o
      simp [Node.selected, Node.truth, Node.formula, Formula.eval, Comparison.truth, hcell]
    rw [heq, heq]
    have hnegated : op'.holds db (.text cell) (.text v.value) = !db.equal (.text cell) (.text v.value) := by
      rcases hop' with rfl | rfl <;> rfl
    rw [(Operator.holds_equal db hop).2, hnegated]
    simp

/-! ## A row -/

/-- Texts are ordered by their characters, and folded as ASCII. -/
def textDatabase : Database Unit where
  fold := Text.asciiLower
  equal v w := decide (v = w)
  less
    | .text t, .text t' => decide (t < t')
    | .int z, .int z' => decide (z < z')
    | .timestamp c, .timestamp c' => decide (c < c')
    | _, _ => false
  varchar
    | .text t => t
    | _ => []
  equal_text t t' := by simp
  varchar_text _ := rfl

/-- An event of a service, if it has one. -/
def serviceCells (service : Option String) : Cells Unit
  | .eventId => some (.text (Text.ofString "1f0c"))
  | .timestamp | .ingestedAt => some (.timestamp Timeutil.minTimestamp)
  | .service => service.map fun name => .text (Text.ofString name)
  | _ => none

theorem ne_complements_eq_payments : ∃ n m : Node Unit,
    parse textBuiltins [⟨.word, Text.ofString "service", 0⟩, ⟨.op, Text.ofString "=", 7⟩, ⟨.word, Text.ofString "pay", 8⟩] =
      .ok (some n) ∧
    parse textBuiltins [⟨.word, Text.ofString "service", 0⟩, ⟨.op, Text.ofString "!=", 7⟩, ⟨.word, Text.ofString "pay", 9⟩] =
      .ok (some m) ∧
    ((n.selected textDatabase (serviceCells (some "payments")) ↔ ¬ m.selected textDatabase (serviceCells (some "payments"))) ↔
      chr '*' ∉ Text.ofString "pay") :=
  @ne_complements_eq Unit textBuiltins textDatabase .service rfl .eq .ne rfl (.inl rfl) ⟨.word, Text.ofString "pay", 8⟩ rfl
    (by decide) 0 7 0 7 9 (serviceCells (some "payments")) (Text.ofString "payments") rfl

/-- `service=pay*` and `service!=pay*` both find the service `payments`. -/
theorem wildcard_inequality : ∃ n m : Node Unit,
    (SearchInput.query (Text.ofString "service=pay*")).tree textBuiltins = .ok (some n) ∧
    (SearchInput.query (Text.ofString "service!=pay*")).tree textBuiltins = .ok (some m) ∧
    n.selected textDatabase (serviceCells (some "payments")) ∧ m.selected textDatabase (serviceCells (some "payments")) := by
  refine ⟨.comparison ⟨.service, .tilde, some (.text (Text.ofString "pay%")), []⟩,
    .comparison ⟨.service, .tilde, some (.text (Text.ofString "pay%")), []⟩, ?_, ?_, ?_, ?_⟩
  · with_unfolding_all rfl
  · with_unfolding_all rfl
  · decide
  · decide

end LogAnalytics.Search
