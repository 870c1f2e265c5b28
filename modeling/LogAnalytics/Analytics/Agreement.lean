import Mathlib.Data.List.Nodup
import LogAnalytics.Analytics.Scope
import LogAnalytics.Search.Patterns
import LogAnalytics.Search.RoundTrip
/-!
# Where search and analytics agree

Each of the two compilers asks one test of each filtered column. The tests are the same
for plain values; a `*` is a wildcard to one of them only, an empty text is no filter to one of
them, and one of them reads no more than the first `MAX_IN_VALUES` values of a list.
-/
open LogAnalytics.Lib

namespace LogAnalytics

open Search

variable {F : Type} {fold : CodePoint → CodePoint}

/-- What search asks of a column for one value. -/
def singleTest (fold : CodePoint → CodePoint) (text : Text) (cell : Option Text) : Bool :=
  cell.any fun value => if chr '*' ∈ text then ilike fold value (toLikePattern text) else text = value

/-- What search asks of a column. -/
def searchTest (fold : CodePoint → CodePoint) (value : FilterValue) (cell : Option Text) : Bool :=
  match value with
  | .none => true
  | .scalar text => text = [] || singleTest fold text cell
  | .list texts =>
    match texts.take maxInValues with
    | [] => true
    | [text] => singleTest fold text cell
    | texts => cell.any (texts.contains ·)

/-- What analytics asks of a column. -/
def scopeTest (value : FilterValue) (cell : Option Text) : Bool :=
  match value with
  | .none => true
  | .scalar text => cell = some text
  | .list texts => texts = [] || cell.any (texts.contains ·)

/-- A value the two compilers read alike. -/
def Search.FilterValue.plain : FilterValue → Bool
  | .none => true
  | .scalar text => text ≠ [] && !text.contains (chr '*')
  | .list [text] => !text.contains (chr '*')
  | .list texts => texts.all (texts.take maxInValues).contains

/-! ## The two compilers -/

theorem validateColumn_ok {name : Text} {c : Column} (h : validateColumn name = .ok c) : Text.ofString c.name = name := by
  unfold validateColumn at h
  split at h
  · next column hfind =>
    cases h
    simpa using List.find?_some hfind
  · cases h

/-- The comparison with one value. -/
def singleComparison (c : Column) (text : Text) : Comparison F :=
  if chr '*' ∈ text then { column := c, operator := .tilde, value := some (.text (toLikePattern text)) }
  else { column := c, operator := .eq, value := some (.text text) }

/-- The comparison with a list. -/
def listComparison (c : Column) (texts : List Text) : Comparison F :=
  { column := c, operator := .eq, value := none, values := texts.map .text }

theorem buildComparison_single (b : Builtins F) {c : Column} (hc : c.isString = true) (text : Text) :
    buildComparison b c (Text.ofString "=") [text] = .ok (singleComparison c text) := by
  have hop : Operator.ofText (Text.ofString "=") = some .eq := by decide
  have hnumeric : c.isNumeric = false := by
    rw [Column.isString, Bool.and_eq_true] at hc
    simpa using hc.1
  unfold buildComparison singleComparison
  rw [hop]
  by_cases htext : chr '*' ∈ text
  · simp [htext, hnumeric]
  · simp [htext, coerce_string hc, Bind.bind, Except.bind]

theorem buildComparison_list (b : Builtins F) {c : Column} (hc : c.isString = true) (text text' : Text) (texts : List Text) :
    buildComparison b c (Text.ofString "=") (text :: text' :: texts) = .ok (listComparison c (text :: text' :: texts)) := by
  have hop : Operator.ofText (Text.ofString "=") = some .eq := by decide
  unfold buildComparison listComparison
  rw [hop]
  simp [Operator.takesList, coerceAll_string hc, Bind.bind, Except.bind]

theorem selects_single (row : TextRow) (c : Column) (text : Text) :
    (singleComparison c text : Comparison F).selects fold row = singleTest fold text (row.cell c) := by
  unfold singleComparison
  by_cases h : chr '*' ∈ text
  · simp only [if_pos h, singleTest, Comparison.selects]
    cases row.cell c <;> simp [Operator.sql]
  · simp only [if_neg h, singleTest, Comparison.selects]
    cases row.cell c <;> simp [Operator.sql]

theorem selects_list (fold : CodePoint → CodePoint) (row : TextRow) (c : Column) {texts : List Text}
    (hne : texts ≠ []) :
    (listComparison c texts : Comparison F).selects fold row = (row.cell c).any (texts.contains ·) := by
  unfold listComparison Comparison.selects
  dsimp only
  cases row.cell c with
  | none => rfl
  | some value =>
    have hmap : texts.map (Value.text (F := F)) ≠ [] := fun h => hne (List.map_eq_nil_iff.1 h)
    simp only [if_pos hmap, Option.any_some, List.any_map]
    rw [Bool.eq_iff_iff, List.any_eq_true, List.contains_iff_mem]
    simp

/-- The node of one filter, if it makes one. -/
def filterComparison (c : Column) : FilterValue → Option (Comparison F)
  | .none => none
  | .scalar text => if text = [] then none else some (singleComparison c text)
  | .list texts =>
    match texts.take maxInValues with
    | [] => none
    | [text] => some (singleComparison c text)
    | texts => some (listComparison c texts)

theorem filterComparison_selects (fold : CodePoint → CodePoint) (row : TextRow) (c : Column)
    (value : FilterValue) :
    (filterComparison c value : Option (Comparison F)).all (·.selects fold row) = searchTest fold value (row.cell c) := by
  cases value with
  | none => rfl
  | scalar text =>
    by_cases htext : text = []
    · simp [filterComparison, searchTest, htext]
    · simp [filterComparison, searchTest, htext, selects_single]
  | list texts =>
    simp only [filterComparison, searchTest]
    rcases texts.take maxInValues with _ | ⟨text, _ | ⟨text', texts'⟩⟩
    · rfl
    · exact selects_single row c text
    · exact selects_list fold row c (by simp)

theorem filterNodes_cons (b : Builtins F) {c : Column} (hc : c.isString = true) (value : FilterValue)
    (filters : List (Text × FilterValue)) :
    filterNodes b ((Text.ofString c.name, value) :: filters) =
      (filterNodes b filters).map fun nodes => (filterComparison c value).toList.map Node.comparison ++ nodes := by
  cases value with
  | none => cases h : filterNodes b filters <;> simp [filterNodes, filterComparison, h, Except.map]
  | scalar text =>
    by_cases htext : text = []
    · cases h : filterNodes b filters <;> simp [filterNodes, filterComparison, htext, h, Except.map]
    · cases h : filterNodes b filters <;>
        simp [filterNodes, filterComparison, htext, h, Except.map, resolveColumn_name, buildComparison_single b hc,
          Bind.bind, Except.bind]
  | list texts =>
    simp only [filterNodes, filterComparison, resolveColumn_name]
    rcases texts.take maxInValues with _ | ⟨text, _ | ⟨text', texts'⟩⟩
    · cases filterNodes b filters <;> simp [Except.map, Bind.bind, Except.bind]
    · cases filterNodes b filters <;> simp [Except.map, buildComparison_single b hc, Bind.bind, Except.bind]
    · cases filterNodes b filters <;> simp [Except.map, buildComparison_list b hc, Bind.bind, Except.bind]

/-- Every filter that counts is on a column, which the tests are asked of. -/
def Asked (test : FilterValue → Option Text → Bool) (filters : List (Text × FilterValue)) (row : TextRow) : Prop :=
  ∀ f ∈ filters, ∀ c, validateColumn f.1 = .ok c → test f.2 (row.cell c) = true

theorem asked_cons {test : FilterValue → Option Text → Bool} {f : Text × FilterValue} {filters : List (Text × FilterValue)}
    {row : TextRow} : Asked test (f :: filters) row ↔
      (∀ c, validateColumn f.1 = .ok c → test f.2 (row.cell c) = true) ∧ Asked test filters row := by
  simp [Asked]

theorem oneOf_selects (row : TextRow) (c : Column) (texts : List Text) :
    (Clause.oneOf c texts).selects row = (row.cell c).any (texts.contains ·) := by
  rw [Clause.selects]
  cases row.cell c with
  | none => simp
  | some value =>
    rw [Option.any_some, Bool.eq_iff_iff, List.any_eq_true, List.contains_iff_mem]
    simp [eq_comm]

/-- The filter map is accepted: its names are columns, unless the value is `None`. -/
theorem scopeClauses_cons (name : Text) (value : FilterValue) {filters : List (Text × FilterValue)}
    {clauses : List Clause}
    (h : scopeClauses ((name, value) :: filters) = .ok clauses) :
    ∃ rest, scopeClauses filters = .ok rest ∧ (value = .none ∧ clauses = rest ∨
      ∃ c, validateColumn name = .ok c ∧ ∀ row, clauses.all (·.selects row) =
        (scopeTest value (row.cell c) && rest.all (·.selects row))) := by
  cases value with
  | none => exact ⟨clauses, h, .inl ⟨rfl, rfl⟩⟩
  | scalar text =>
    simp only [scopeClauses, bind, Except.bind] at h
    cases hcolumn : validateColumn name with
    | error exn => simp [hcolumn] at h
    | ok c =>
      cases hrest : scopeClauses filters with
      | error exn => simp [hcolumn, hrest] at h
      | ok rest =>
        simp only [hcolumn, hrest, Except.ok.injEq] at h
        subst h
        exact ⟨rest, rfl, .inr ⟨c, rfl, fun row => rfl⟩⟩
  | list texts =>
    simp only [scopeClauses, bind, Except.bind] at h
    cases hcolumn : validateColumn name with
    | error exn => simp [hcolumn] at h
    | ok c =>
      cases hrest : scopeClauses filters with
      | error exn => simp [hcolumn, hrest] at h
      | ok rest =>
        simp only [hcolumn, hrest, Except.ok.injEq] at h
        subst h
        refine ⟨rest, rfl, .inr ⟨c, rfl, fun row => ?_⟩⟩
        by_cases htexts : texts = []
        · simp [htexts, scopeTest]
        · rw [if_neg htexts, List.all_cons, oneOf_selects]
          simp [scopeTest, htexts]

theorem scopeClauses_asked {filters : List (Text × FilterValue)} {clauses : List Clause}
    (h : scopeClauses filters = .ok clauses) (row : TextRow) :
    clauses.all (·.selects row) = true ↔ Asked scopeTest filters row := by
  induction filters generalizing clauses with
  | nil =>
    cases h
    simp [Asked]
  | cons f filters ih =>
    obtain ⟨name, value⟩ := f
    obtain ⟨rest, hrest, ⟨rfl, rfl⟩ | ⟨c, hcolumn, hall⟩⟩ := scopeClauses_cons _ _ h
    · simp [asked_cons, ih hrest, scopeTest]
    · rw [hall, Bool.and_eq_true, ih hrest, asked_cons, hcolumn]
      simp

theorem filterNodes_asked (fold : CodePoint → CodePoint) {b : Builtins F} {filters : List (Text × FilterValue)}
    {clauses : List Clause} {nodes : List (Node F)} (hscope : scopeClauses filters = .ok clauses)
    (hstring : ∀ f ∈ filters, ∀ c, validateColumn f.1 = .ok c → c.isString = true)
    (hsearch : filterNodes b filters = .ok nodes) :
    (∀ n ∈ nodes, ∃ c, n = .comparison c) ∧
      ∀ row, nodes.all (·.comparisonSelects fold row) = true ↔ Asked (searchTest fold) filters row := by
  induction filters generalizing clauses nodes with
  | nil =>
    cases hsearch
    simp [Asked]
  | cons f filters ih =>
    obtain ⟨name, value⟩ := f
    have hstrings := fun f hf => hstring f (List.mem_cons_of_mem _ hf)
    obtain ⟨rest, hrest, ⟨rfl, rfl⟩ | ⟨c, hcolumn, -⟩⟩ := scopeClauses_cons _ _ hscope
    · obtain ⟨hnodes, hasked⟩ := ih hrest hstrings hsearch
      refine ⟨hnodes, fun row => ?_⟩
      rw [hasked, asked_cons]
      simp [searchTest]
    · have hname := validateColumn_ok hcolumn
      subst hname
      rw [filterNodes_cons b (hstring _ List.mem_cons_self c hcolumn)] at hsearch
      cases hns : filterNodes b filters with
      | error e => simp [hns, Except.map] at hsearch
      | ok ns =>
        simp only [hns, Except.map, Except.ok.injEq] at hsearch
        subst hsearch
        obtain ⟨hnodes, hasked⟩ := ih hrest hstrings hns
        refine ⟨fun n hn => ?_, fun row => ?_⟩
        · rcases List.mem_append.1 hn with hn | hn
          · obtain ⟨comparison, -, rfl⟩ := List.mem_map.1 hn
            exact ⟨comparison, rfl⟩
          · exact hnodes n hn
        · rw [List.all_append, Bool.and_eq_true, hasked, asked_cons, hcolumn]
          have htest := filterComparison_selects (F := F) fold row c value
          have hall : ((filterComparison c value : Option (Comparison F)).toList.map Node.comparison).all
              (·.comparisonSelects fold row) = searchTest fold value (row.cell c) := by
            rw [← htest]
            cases (filterComparison c value : Option (Comparison F)) <;> simp [Node.comparisonSelects]
          rw [hall]
          simp

/-! ## The two tests -/

/-- A value with a `*` finds itself without its stars. -/
theorem singleTest_dropped (fold : CodePoint → CodePoint) {text : Text} (h : chr '*' ∈ text) :
    singleTest fold text (some (text.filter (· ≠ chr '*'))) = true := by
  simp only [singleTest, Option.any_some, if_pos h, ilike]
  rw [parse_pattern h]
  exact Like.matchItems_dropped (fun c => by simp) text

theorem singleTest_self (text : Text) : singleTest fold text (some text) = true := by
  simp only [singleTest, Option.any_some]
  split
  · next h =>
    rw [ilike, parse_pattern h]
    exact Like.matchItems_self (fun c => by simp) text
  · simp

/-- Some text passes both tests. -/
theorem exists_common (fold : CodePoint → CodePoint) (value : FilterValue) :
    ∃ text, searchTest fold value (some text) = true ∧ scopeTest value (some text) = true := by
  cases value with
  | none => exact ⟨[], rfl, rfl⟩
  | scalar text => exact ⟨text, by simp [searchTest, singleTest_self], by simp [scopeTest]⟩
  | list texts =>
    rcases texts with _ | ⟨text, _ | ⟨text', texts⟩⟩
    · exact ⟨[], rfl, rfl⟩
    · exact ⟨text, singleTest_self text, by simp [scopeTest]⟩
    · exact ⟨text, by simp [searchTest, maxInValues], by simp [scopeTest]⟩

theorem searchTest_many (text text' : Text) (texts : List Text) (cell : Option Text) :
    searchTest fold (.list (text :: text' :: texts)) cell =
      cell.any ((List.take maxInValues (text :: text' :: texts)).contains ·) := rfl

/-- For a plain value the tests are the same. -/
theorem searchTest_eq {value : FilterValue} (h : value.plain = true) (cell : Option Text) :
    searchTest fold value cell = scopeTest value cell := by
  cases value with
  | none => rfl
  | scalar text =>
    simp only [FilterValue.plain, Bool.and_eq_true, decide_eq_true_eq, Bool.not_eq_true', List.contains_eq_mem,
      decide_eq_false_iff_not] at h
    simp only [searchTest, scopeTest, singleTest, h.1, decide_false, Bool.false_or, if_neg h.2]
    cases cell <;> simp [eq_comm]
  | list texts =>
    rcases texts with _ | ⟨text, _ | ⟨text', texts⟩⟩
    · rfl
    · simp only [FilterValue.plain, Bool.not_eq_true', List.contains_eq_mem, decide_eq_false_iff_not] at h
      simp only [searchTest, maxInValues, List.take, singleTest, scopeTest, if_neg h]
      cases cell <;> simp [eq_comm]
    · rw [searchTest_many]
      simp only [FilterValue.plain, List.all_eq_true, List.contains_iff_mem] at h
      simp only [scopeTest, reduceCtorEq, decide_false, Bool.false_or]
      cases cell with
      | none => rfl
      | some value =>
        rw [Option.any_some, Option.any_some, Bool.eq_iff_iff, List.contains_iff_mem, List.contains_iff_mem]
        exact ⟨List.mem_of_mem_take, h value⟩

/-- For any other value some text tells them apart. -/
theorem exists_apart (fold : CodePoint → CodePoint) {value : FilterValue} (h : value.plain = false) :
    ∃ text, searchTest fold value (some text) ≠ scopeTest value (some text) := by
  cases value with
  | none => cases h
  | scalar text =>
    by_cases htext : text = []
    · exact ⟨[chr 'x'], by simp [searchTest, scopeTest, htext]⟩
    · have hstar : chr '*' ∈ text := by simpa [FilterValue.plain, htext] using h
      have hfound := singleTest_dropped fold hstar
      refine ⟨text.filter (· ≠ chr '*'), ?_⟩
      rw [searchTest, hfound]
      simp [scopeTest, hstar]
  | list texts =>
    rcases texts with _ | ⟨text, _ | ⟨text', texts⟩⟩
    · cases h
    · have hstar : chr '*' ∈ text := by simpa [FilterValue.plain] using h
      have hfound := singleTest_dropped fold hstar
      refine ⟨text.filter (· ≠ chr '*'), ?_⟩
      rw [show searchTest fold (.list [text]) _ = true from hfound]
      simp [scopeTest, hstar]
    · -- A value past the limit is found by analytics only.
      rw [FilterValue.plain, List.all_eq_false] at h
      · obtain ⟨value, hin, hcut⟩ := h
        refine ⟨value, ?_⟩
        have hscope : scopeTest (.list (text :: text' :: texts)) (some value) = true := by
          simp only [scopeTest, Option.any_some, Bool.or_eq_true, List.contains_iff_mem]
          exact .inr hin
        rw [searchTest_many, Option.any_some, Bool.eq_false_iff.2 hcut, hscope]
        exact Bool.false_ne_true
      · simp

/-! ## The rows -/

/-- A row with these texts in its columns. -/
def textRow (texts : Column → Text) (timestamp : Clock) : TextRow :=
  { timestamp := timestamp, eventId := texts .eventId, columns := fun c => some (texts c) }

theorem textRow_cell (texts : Column → Text) (timestamp : Clock) (c : Column) :
    (textRow texts timestamp).cell c = some (texts c) := by
  cases c <;> rfl

theorem searchRows_eq {nodes : List (Node F)} (hnodes : ∀ n ∈ nodes, ∃ c, n = .comparison c) (row : TextRow) :
    (if nodes = [] then none else some (collapse .and nodes)).all (·.selects fold row) =
      nodes.all (·.comparisonSelects fold row) := by
  rcases nodes with _ | ⟨n, _ | ⟨n', nodes⟩⟩
  · rfl
  · obtain ⟨c, rfl⟩ := hnodes n List.mem_cons_self
    simp [collapse, Node.selects, Node.comparisonSelects]
  · simp [collapse, Node.selects]

theorem scopeClauses_column {filters : List (Text × FilterValue)} {clauses : List Clause}
    (h : scopeClauses filters = .ok clauses) {f : Text × FilterValue} (hf : f ∈ filters) (hvalue : f.2 ≠ .none) :
    ∃ c, validateColumn f.1 = .ok c := by
  induction filters generalizing clauses with
  | nil => cases hf
  | cons g filters ih =>
    obtain ⟨rest, hrest, hcase⟩ := scopeClauses_cons g.1 g.2 h
    rcases List.mem_cons.1 hf with rfl | hf
    · rcases hcase with ⟨hnone, -⟩ | ⟨c, hc, -⟩
      · exact absurd hnone hvalue
      · exact ⟨c, hc⟩
    · exact ih hrest hf

/-- What search and analytics make of a row, for a map both accept. -/
theorem selected_asked (fold : CodePoint → CodePoint) {b : Builtins F} {filters : List (Text × FilterValue)} {tree : Option (Node F)}
    {clauses : List Clause} (hsearch : (SearchInput.filters filters).tree b = .ok tree)
    (hscope : scopeClauses filters = .ok clauses)
    (hstring : ∀ f ∈ filters, ∀ c, validateColumn f.1 = .ok c → c.isString = true) (row : TextRow) :
    (tree.all (·.selects fold row) = true ↔ Asked (searchTest fold) filters row) ∧
      (clauses.all (·.selects row) = true ↔ Asked scopeTest filters row) := by
  refine ⟨?_, scopeClauses_asked hscope row⟩
  simp only [SearchInput.tree, bind, Except.bind] at hsearch
  cases hnodes : filterNodes b filters with
  | error e => simp [hnodes] at hsearch
  | ok nodes =>
    simp only [hnodes, Except.ok.injEq] at hsearch
    obtain ⟨hcomparisons, hasked⟩ := filterNodes_asked fold hscope hstring hnodes
    rw [← hsearch, searchRows_eq hcomparisons, hasked]

/-- A row that passes every filter but one, whichever of the two asks, and has the text in the
column of that one. -/
theorem exists_row (fold : CodePoint → CodePoint) {filters : List (Text × FilterValue)} (hkeys : (filters.map (·.1)).Nodup)
    {f : Text × FilterValue} (hf : f ∈ filters) {c : Column} (hc : validateColumn f.1 = .ok c) (text : Text)
    (timestamp : Clock) : ∃ row : TextRow,
      (Asked (searchTest fold) filters row ↔ searchTest fold f.2 (some text) = true) ∧
      (Asked scopeTest filters row ↔ scopeTest f.2 (some text) = true) := by
  choose common hcommon using exists_common fold
  let texts : Column → Text := fun d =>
    if d = c then text else ((filters.find? fun g => g.1 = Text.ofString d.name).map fun g => common g.2).getD []
  have hsame : ∀ g ∈ filters, ∀ g' ∈ filters, g.1 = g'.1 → g = g' := fun g hg g' hg' =>
    List.inj_on_of_nodup_map hkeys hg hg'
  have hcell : ∀ g ∈ filters, ∀ d, validateColumn g.1 = .ok d → g = f ∧ d = c ∨ texts d = common g.2 := by
    intro g hg d hd
    by_cases hdc : d = c
    · subst hdc
      exact .inl ⟨hsame g hg f hf ((validateColumn_ok hd).symm.trans (validateColumn_ok hc)), rfl⟩
    · refine .inr ?_
      have hfind : filters.find? (fun g => g.1 = Text.ofString d.name) = some g := by
        cases hfound : filters.find? (fun g => g.1 = Text.ofString d.name) with
        | none => simpa [(validateColumn_ok hd).symm] using List.find?_eq_none.1 hfound g hg
        | some g' =>
          have hname : g'.1 = Text.ofString d.name := by simpa using List.find?_some hfound
          rw [hsame g' (List.mem_of_find?_eq_some hfound) g hg (hname.trans (validateColumn_ok hd))]
      simp only [texts, if_neg hdc, hfind, Option.map_some, Option.getD_some]
  have hasked : ∀ test : FilterValue → Option Text → Bool, (∀ value, test value (some (common value)) = true) →
      (Asked test filters (textRow texts timestamp) ↔ test f.2 (some text) = true) := by
    intro test htest
    have hself : texts c = text := if_pos rfl
    constructor
    · intro h
      rw [← hself, ← textRow_cell texts timestamp]
      exact h f hf c hc
    · intro h g hg d hd
      rw [textRow_cell]
      rcases hcell g hg d hd with ⟨rfl, rfl⟩ | hcell
      · rwa [hself]
      · rw [hcell]
        exact htest g.2
  exact ⟨textRow texts timestamp, hasked _ fun value => (hcommon value).1, hasked _ fun value => (hcommon value).2⟩

/-- Search and analytics select the same rows of every dataset and range exactly when every
value of the map is plain. -/
theorem filters_agree {b : Builtins F} {filters : List (Text × FilterValue)} {tree : Option (Node F)}
    {clauses : List Clause} (hsearch : (SearchInput.filters filters).tree b = .ok tree)
    (hscope : scopeClauses filters = .ok clauses) (hkeys : (filters.map (·.1)).Nodup)
    (hstring : ∀ f ∈ filters, ∀ c, validateColumn f.1 = .ok c → c.isString = true) :
    (∀ range rows, searchRows fold tree range rows = scopeRows clauses range rows) ↔
      ∀ f ∈ filters, f.2.plain = true := by
  have hselected := selected_asked fold hsearch hscope hstring
  constructor
  · intro h f hf
    by_contra hplain
    have hvalue : f.2 ≠ .none := fun hnone => hplain (by rw [hnone]; rfl)
    obtain ⟨c, hc⟩ := scopeClauses_column hscope hf hvalue
    obtain ⟨text, hapart⟩ := exists_apart fold (by simpa using hplain)
    obtain ⟨row, hasked, hasked'⟩ := exists_row fold hkeys hf hc text Timeutil.minTimestamp
    have hin : inRange (row.timestamp, row.timestamp) row = true := by
      simp only [inRange, decide_eq_true_eq]
      exact ⟨Nat.le_refl _, Nat.le_refl _⟩
    have hboth : tree.all (·.selects fold row) = true ↔ clauses.all (·.selects row) = true := by
      have hrows := congrArg (row ∈ ·) (h (row.timestamp, row.timestamp) [row])
      simpa only [searchRows, scopeRows, List.mem_filter, List.mem_singleton, hin, Bool.true_and, true_and, eq_iff_iff]
        using hrows
    refine hapart ?_
    rw [Bool.eq_iff_iff, ← hasked, ← hasked', ← (hselected row).1, ← (hselected row).2]
    exact hboth
  · intro h range rows
    refine List.filter_congr fun row _ => congrArg (inRange range row && ·) ?_
    rw [Bool.eq_iff_iff, (hselected row).1, (hselected row).2]
    refine forall₂_congr fun f hf => forall₂_congr fun c _ => ?_
    rw [searchTest_eq (h f hf)]

/-! ## A wildcard -/

def serviceFilter (value : FilterValue) : List (Text × FilterValue) := [(Text.ofString "service", value)]

/-- A row of the service `payments`. -/
def paymentsRow : TextRow := textRow (fun _ => Text.ofString "payments") Timeutil.minTimestamp

def dawn : Clock × Clock := (Timeutil.minTimestamp, Timeutil.minTimestamp)

theorem serviceFilter_string (value : FilterValue) :
    ∀ f ∈ serviceFilter value, ∀ c, validateColumn f.1 = .ok c → c.isString = true := by
  intro f hf c hc
  cases List.mem_singleton.1 hf
  have hservice : validateColumn (Text.ofString "service") = .ok .service := by decide
  rw [hservice] at hc
  cases hc
  rfl

theorem filters_agree_payments : ∃ (tree : Option (Node Unit)) (clauses : List Clause),
    (SearchInput.filters (serviceFilter (.scalar (Text.ofString "payments")))).tree textBuiltins = .ok tree ∧
    scopeClauses (serviceFilter (.scalar (Text.ofString "payments"))) = .ok clauses ∧
    searchRows Text.asciiLower tree dawn [paymentsRow] = scopeRows clauses dawn [paymentsRow] := by
  have htree : (SearchInput.filters (serviceFilter (.scalar (Text.ofString "payments")))).tree textBuiltins = .ok _ := rfl
  refine ⟨_, _, htree, rfl, ?_⟩
  refine (filters_agree htree rfl (List.nodup_singleton _) (serviceFilter_string _)).2 ?_ dawn [paymentsRow]
  intro f hf
  cases List.mem_singleton.1 hf
  decide

/-- The listing finds `payments` under the filter `pay*`, the overview beside it does not. -/
theorem wildcard_listed_only : ∃ (tree : Option (Node Unit)) (clauses : List Clause),
    (SearchInput.filters (serviceFilter (.scalar (Text.ofString "pay*")))).tree textBuiltins = .ok tree ∧
    scopeClauses (serviceFilter (.scalar (Text.ofString "pay*"))) = .ok clauses ∧
    (searchRows Text.asciiLower tree dawn [paymentsRow]).length = 1 ∧ (scopeRows clauses dawn [paymentsRow]).length = 0 := by
  refine ⟨_, _, rfl, rfl, ?_, ?_⟩ <;> decide

end LogAnalytics
