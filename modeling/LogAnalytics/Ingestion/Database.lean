import LogAnalytics.Ingestion.Select
import LogAnalytics.Lib.Assoc
import LogAnalytics.Lib.Loops
import LogAnalytics.Exn
/-!
# Rows of another database

`DatabaseSource` builds one statement. Names are validated and quoted, values are parameters: whatever
the names and values are, the statement is the query that was configured, and no other.
-/
open LogAnalytics.Lib LogAnalytics.Sql

namespace LogAnalytics

def configurationError (msg : String) : Exn := ⟨.other "ConfigurationError", msg⟩

/-- `table` or `query`, one of them. -/
inductive DatabaseTarget where
  | table (name : Text)
  | query (sql : Text)

structure DatabaseSource where
  target : DatabaseTarget
  params : Dict
  columns : List Text
  timestampColumn : Option Text
  since : Option Datetime
  until_ : Option Datetime
  limit : Option Int
  dialect : Text

namespace DatabaseSource

/-! ## Names -/

def isLetter (c : CodePoint) : Bool := (65 ≤ c.val && c.val ≤ 90) || (97 ≤ c.val && c.val ≤ 122) || c = CodePoint.ofChar '_'

def isIdentifierChar (c : CodePoint) : Bool := isLetter c || (48 ≤ c.val && c.val ≤ 57)

/-- `[A-Za-z_][A-Za-z0-9_]{0,62}` -/
def isPlainName : Text → Bool
  | [] => false
  | c :: rest => isLetter c && rest.all isIdentifierChar && rest.length ≤ 62

def newline : CodePoint := CodePoint.ofChar '\n'

/-- `_IDENTIFIER.match(name)`: `$` is also before a line break that ends the text. -/
def isIdentifier (name : Text) : Bool :=
  isPlainName name || (name.getLast? = some newline && isPlainName name.dropLast)

def validateIdentifier (name : Text) : Except Exn Text :=
  if isIdentifier name then .ok name
  else .error (configurationError "invalid identifier: only letters, digits and underscores are permitted")

/-- `_QUOTE_CHARS` -/
def quoteChars : List (Text × CodePoint) :=
  [(Text.ofString "postgresql", CodePoint.ofChar '"'), (Text.ofString "sqlite", CodePoint.ofChar '"'),
    (Text.ofString "mysql", CodePoint.ofChar (Char.ofNat 96))]

/-- It opens and closes a name. -/
def quoteChar (dialect : Text) : CodePoint := (quoteChars.lookup dialect).getD (CodePoint.ofChar '"')

def quoteIdentifier (name dialect : Text) : Except Exn Text :=
  (validateIdentifier name).map fun name => quoteChar dialect :: name ++ [quoteChar dialect]

def qualifiedTable (table dialect : Text) : Except Exn Text :=
  let parts := table.splitOn (CodePoint.ofChar '.')
  if 2 < parts.length then .error (configurationError "table name may contain at most one schema separator")
  else (parts.mapM (quoteIdentifier · dialect)).map fun quoted => [CodePoint.ofChar '.'].intercalate quoted

/-! ## The source -/

/-- `__init__`; an empty text is no table and no query. -/
def init (url : Text) (table query : Option Text) (params : Dict) (columns : List Text) (timestampColumn : Option Text)
    (since until_ : Option Datetime) (limit : Option Int) (dialect : Option Text) : Except Exn DatabaseSource := do
  let target ←
    match table.filter (· ≠ []), query.filter (· ≠ []) with
    | none, none => .error (configurationError "either 'table' or 'query' must be provided")
    | some _, some _ => .error (configurationError "provide either 'table' or 'query', not both")
    | some name, none => .ok (.table name)
    | none, some sql => .ok (.query sql)
  let scheme := (url.takeWhile (· ≠ CodePoint.ofChar ':')).takeWhile (· ≠ CodePoint.ofChar '+')
  .ok {
    target, params, columns, timestampColumn, since, until_, limit
    dialect := (dialect.filter (· ≠ [])).getD scheme }

/-- A source is built exactly from a table or a query. -/
theorem init_ok (url : Text) (table query : Option Text) (params : Dict) (columns : List Text) (timestampColumn : Option Text)
    (since until_ : Option Datetime) (limit : Option Int) (dialect : Option Text) :
    (∃ s, init url table query params columns timestampColumn since until_ limit dialect = .ok s) ↔
      ((table.filter (· ≠ [])).isSome ↔ (query.filter (· ≠ [])) = none) := by
  unfold init
  cases table.filter (· ≠ []) <;> cases query.filter (· ≠ []) <;> simp [bind, Except.bind]

variable (s : DatabaseSource)

/-- The column that times are in; an empty name is none. -/
def timeColumn : Option Text := s.timestampColumn.filter (· ≠ [])

/-- The clauses on a column that is quoted already. -/
def clauses (column : Text) : List Text :=
  (if s.since.isSome then [column ++ Text.ofString " >= :since"] else []) ++
    if s.until_.isSome then [column ++ Text.ofString " < :until"] else []

/-- The parameters of the clauses. -/
def clauseParams (params : Dict) : Dict :=
  let params :=
    match s.since with
    | none => params
    | some d => params.set (Text.ofString "since") (.datetime d)
  match s.until_ with
  | none => params
  | some d => params.set (Text.ofString "until") (.datetime d)

/-- The columns selected. -/
def selected : Except Exn Text :=
  if s.columns = [] then .ok (Text.ofString "*")
  else (s.columns.mapM (quoteIdentifier · s.dialect)).map fun quoted => (Text.ofString ", ").intercalate quoted

/-- The clauses on the time, the order, and the parameters. -/
def timed : Except Exn (List Text × Text × Dict) :=
  match s.timeColumn with
  | none => .ok ([], [], s.params)
  | some column =>
    (quoteIdentifier column s.dialect).map fun column =>
      (s.clauses column, Text.ofString " ORDER BY " ++ column, s.clauseParams s.params)

/-- The statement from its parts, and the parameter of its limit. -/
def assemble (table selected : Text) : List Text × Text × Dict → Text × Dict
  | (clauses, order, params) =>
    let sql := Text.ofString "SELECT " ++ selected ++ Text.ofString " FROM " ++ table
    let sql := if clauses = [] then sql else sql ++ Text.ofString " WHERE " ++ (Text.ofString " AND ").intercalate clauses
    let sql := sql ++ order
    match s.limit with
    | none => (sql, params)
    | some n => (sql ++ Text.ofString " LIMIT :row_limit", params.set (Text.ofString "row_limit") (.int n))

/-- `_build_query`: the statement and its parameters. -/
def buildQuery : Except Exn (Text × Dict) :=
  match s.target with
  | .query sql => .ok (sql, s.params)
  | .table name => do
    let table ← qualifiedTable name s.dialect
    let selected ← s.selected
    let parts ← s.timed
    .ok (s.assemble table selected parts)

/-! ## What is configured -/

/-- The query that the settings mean. -/
def select (name : Text) : Select where
  columns := s.columns
  table := name.splitOn (CodePoint.ofChar '.')
  conditions :=
    match s.timeColumn with
    | none => []
    | some column =>
      (if s.since.isSome then [⟨column, .ge, Text.ofString "since"⟩] else []) ++
        if s.until_.isSome then [⟨column, .lt, Text.ofString "until"⟩] else []
  orderBy := s.timeColumn
  limit := if s.limit.isSome then some (Text.ofString "row_limit") else none

/-- The names that end up in the statement. -/
def names (name : Text) : List Text := name.splitOn (CodePoint.ofChar '.') ++ s.columns ++ s.timeColumn.toList

/-! ## The text of a query -/

/-- The characters of a dialect. -/
theorem quoteChar_cases (dialect : Text) :
    quoteChar dialect = CodePoint.ofChar '"' ∨ quoteChar dialect = CodePoint.ofChar (Char.ofNat 96) := by
  rw [quoteChar]
  cases h : quoteChars.lookup dialect with
  | none => exact .inl rfl
  | some q =>
    have hmem := mem_of_lookup h
    simp only [quoteChars, List.mem_cons, Prod.mk.injEq, List.not_mem_nil, or_false] at hmem
    rcases hmem with ⟨-, rfl⟩ | ⟨-, rfl⟩ | ⟨-, rfl⟩
    · exact .inl rfl
    · exact .inl rfl
    · exact .inr rfl

def isBlank (c : CodePoint) : Bool := c = CodePoint.ofChar ' ' || (9 ≤ c.val && c.val ≤ 13)

theorem isIdentifierChar_iff {c : CodePoint} : isIdentifierChar c = true ↔
    (65 ≤ c.val ∧ c.val ≤ 90) ∨ (97 ≤ c.val ∧ c.val ≤ 122) ∨ c.val = 95 ∨ (48 ≤ c.val ∧ c.val ≤ 57) := by
  have hunderscore : c = CodePoint.ofChar '_' ↔ c.val = 95 := by
    rw [Fin.ext_iff]
    rfl
  simp only [isIdentifierChar, isLetter, Bool.or_eq_true, Bool.and_eq_true, decide_eq_true_eq, hunderscore, or_assoc]

def lexis (dialect : Text) : Lexis CodePoint where
  isSpace := isBlank
  isWord := isIdentifierChar
  quote := quoteChar dialect
  colon := CodePoint.ofChar ':'
  quote_not_space := by rcases quoteChar_cases dialect with h | h <;> rw [h] <;> decide
  colon_not_space := by decide
  word_not_space c hc := by
    rw [isIdentifierChar_iff] at hc
    simp only [isBlank, Bool.or_eq_false_iff, Bool.and_eq_false_iff, decide_eq_false_iff_not, Fin.ext_iff]
    have : (CodePoint.ofChar ' ').val = 32 := rfl
    omega
  quote_not_word := by rcases quoteChar_cases dialect with h | h <;> rw [h] <;> decide
  colon_not_word := by decide
  quote_ne_colon := by rcases quoteChar_cases dialect with h | h <;> rw [h] <;> decide

def quoted (dialect name : Text) : Text := quoteChar dialect :: name ++ [quoteChar dialect]

def spellCondition (dialect : Text) (x : Condition) : Text :=
  quoted dialect x.column ++ Text.ofString (match x.comparison with | .ge => " >= :" | .lt => " < :") ++ x.param

/-- How a query is written down. -/
def spell (dialect : Text) (q : Select) : Text :=
  let columns := if q.columns = [] then Text.ofString "*" else (Text.ofString ", ").intercalate (q.columns.map (quoted dialect))
  let table := [CodePoint.ofChar '.'].intercalate (q.table.map (quoted dialect))
  let conditions :=
    if q.conditions = [] then []
    else Text.ofString " WHERE " ++ (Text.ofString " AND ").intercalate (q.conditions.map (spellCondition dialect))
  let order :=
    match q.orderBy with
    | none => []
    | some column => Text.ofString " ORDER BY " ++ quoted dialect column
  let limit :=
    match q.limit with
    | none => []
    | some name => Text.ofString " LIMIT :" ++ name
  Text.ofString "SELECT " ++ columns ++ Text.ofString " FROM " ++ table ++ conditions ++ order ++ limit

/-- Its names can be quoted and its parameters are words. -/
structure Plain (q : Select) : Prop where
  columns : ∀ n ∈ q.columns, isIdentifier n = true
  table : ∀ n ∈ q.table, isIdentifier n = true
  conditions : ∀ x ∈ q.conditions, isIdentifier x.column = true ∧ x.param.all isIdentifierChar = true
  orderBy : ∀ n ∈ q.orderBy, isIdentifier n = true
  limit : ∀ p ∈ q.limit, p.all isIdentifierChar = true

/-! ### Reading it -/

theorem isPlainName_chars {name : Text} (h : isPlainName name = true) : ∀ c ∈ name, isIdentifierChar c = true := by
  cases name with
  | nil => exact fun c hc => nomatch hc
  | cons d rest =>
    simp only [isPlainName, Bool.and_eq_true, List.all_eq_true] at h
    intro c hc
    rcases List.mem_cons.1 hc with rfl | hc
    · rw [isIdentifierChar, h.1.1, Bool.true_or]
    · exact h.1.2 c hc

/-- Whatever the pattern lets through is made of these. -/
theorem isIdentifier_chars {name : Text} (h : isIdentifier name = true) :
    ∀ c ∈ name, isIdentifierChar c = true ∨ c = newline := by
  rw [isIdentifier, Bool.or_eq_true, Bool.and_eq_true, decide_eq_true_eq] at h
  intro c hc
  rcases h with h | ⟨hlast, h⟩
  · exact .inl (isPlainName_chars h c hc)
  · obtain ⟨start, rfl⟩ := List.getLast?_eq_some_iff.1 hlast
    rw [List.dropLast_concat] at h
    rcases List.mem_append.1 hc with hc | hc
    · exact .inl (isPlainName_chars h c hc)
    · exact .inr (List.mem_singleton.1 hc)

theorem notMem_identifier {name : Text} (h : isIdentifier name = true) {c : CodePoint} (hword : isIdentifierChar c = false)
    (hspace : isBlank c = false) : c ∉ name := by
  intro hc
  rcases isIdentifier_chars h c hc with hchar | rfl
  · rw [hword] at hchar
    cases hchar
  · revert hspace
    decide

theorem quote_notMem {dialect name : Text} (h : isIdentifier name = true) : (lexis dialect).quote ∉ name :=
  notMem_identifier h (lexis dialect).quote_not_word (lexis dialect).quote_not_space

variable {dialect : Text}

theorem reads_name {name : Text} (h : isIdentifier name = true) : (lexis dialect).Reads (quoted dialect name) [.quoted name] :=
  Lexis.reads_quoted (quote_notMem h)

theorem isBlank_space : (lexis dialect).isSpace (CodePoint.ofChar ' ') = true := rfl

theorem isSymbol_of {c : Char} (hspace : isBlank (CodePoint.ofChar c) = false)
    (hword : isIdentifierChar (CodePoint.ofChar c) = false) (hc : c ≠ '"' ∧ c ≠ Char.ofNat 96 ∧ c ≠ ':') :
    (lexis dialect).IsSymbol (CodePoint.ofChar c) := by
  refine ⟨hspace, hword, ?_, fun h => hc.2.2 (CodePoint.ofChar_injective h)⟩
  change CodePoint.ofChar c ≠ quoteChar dialect
  rcases quoteChar_cases dialect with h | h <;> rw [h]
  · exact fun h => hc.1 (CodePoint.ofChar_injective h)
  · exact fun h => hc.2.1 (CodePoint.ofChar_injective h)

/-- A word of the language with a blank behind it. -/
theorem reads_keyword {w text : Text} {tokens : List (Token CodePoint)} (hne : w ≠ []) (hw : w.all isIdentifierChar = true)
    (h : (lexis dialect).Reads text tokens) :
    (lexis dialect).Reads (w ++ CodePoint.ofChar ' ' :: text) (.word w :: tokens) :=
  (Lexis.reads_word hne (List.all_eq_true.1 hw)).append (h.space isBlank_space) (Lexis.boundary_space isBlank_space text)

/-- A list of names, with or without a blank behind the symbol. -/
theorem reads_names {c : Char} (hc : (lexis dialect).IsSymbol (CodePoint.ofChar c)) {sep : Text}
    (hsep : sep = [CodePoint.ofChar c] ∨ sep = [CodePoint.ofChar c, CodePoint.ofChar ' ']) {names : List Text}
    (h : ∀ n ∈ names, isIdentifier n = true) :
    (lexis dialect).Reads (sep.intercalate (names.map (quoted dialect))) (nameTokens c names) := by
  induction names with
  | nil => exact Lexis.reads_nil
  | cons name names ih =>
    have hname := @reads_name dialect name (h name List.mem_cons_self)
    cases names with
    | nil =>
      rw [List.map_singleton, List.intercalate_singleton]
      exact hname
    | cons name' names =>
      have hmore := ih fun n hn => h n (List.mem_cons_of_mem _ hn)
      rw [nameTokens]
      · rw [List.map_cons, List.map_cons, List.intercalate_cons_cons, ← List.map_cons, List.append_assoc]
        refine hname.append ?_ ?_
        · rcases hsep with rfl | rfl
          · exact hmore.symbol hc
          · exact (hmore.space isBlank_space).symbol hc
        · rcases hsep with rfl | rfl <;> exact hc.boundary _
      · exact List.cons_ne_nil _ _

theorem reads_condition {x : Condition} (h : isIdentifier x.column = true ∧ x.param.all isIdentifierChar = true) :
    (lexis dialect).Reads (spellCondition dialect x) x.tokens := by
  have hbind : (lexis dialect).Reads (CodePoint.ofChar ':' :: x.param) [.bind x.param] :=
    Lexis.reads_bind (List.all_eq_true.1 h.2)
  have hsymbol : ∀ c ∈ ['<', '>', '='], (lexis dialect).IsSymbol (CodePoint.ofChar c) := fun c hc => by
    rcases List.mem_cons.1 hc with rfl | hc
    · exact isSymbol_of (by decide) (by decide) (by decide)
    rcases List.mem_cons.1 hc with rfl | hc
    · exact isSymbol_of (by decide) (by decide) (by decide)
    rw [List.mem_singleton.1 hc]
    exact isSymbol_of (by decide) (by decide) (by decide)
  have hge : ∀ t : Text, Text.ofString " >= :" ++ t = CodePoint.ofChar ' ' :: CodePoint.ofChar '>' :: CodePoint.ofChar '=' ::
      CodePoint.ofChar ' ' :: CodePoint.ofChar ':' :: t := fun t => by rfl
  have hlt : ∀ t : Text, Text.ofString " < :" ++ t =
      CodePoint.ofChar ' ' :: CodePoint.ofChar '<' :: CodePoint.ofChar ' ' :: CodePoint.ofChar ':' :: t := fun t => by rfl
  rw [spellCondition, List.append_assoc]
  obtain ⟨column, comparison, param⟩ := x
  cases comparison with
  | ge =>
    dsimp only
    rw [hge]
    exact (reads_name h.1).append ((((hbind.space isBlank_space).symbol (hsymbol '=' (by simp))).symbol
      (hsymbol '>' (by simp))).space isBlank_space) (Lexis.boundary_space isBlank_space _)
  | lt =>
    dsimp only
    rw [hlt]
    exact (reads_name h.1).append (((hbind.space isBlank_space).symbol (hsymbol '<' (by simp))).space isBlank_space)
      (Lexis.boundary_space isBlank_space _)

theorem reads_conditions {xs : List Condition}
    (h : ∀ x ∈ xs, isIdentifier x.column = true ∧ x.param.all isIdentifierChar = true) :
    (lexis dialect).Reads ((Text.ofString " AND ").intercalate (xs.map (spellCondition dialect))) (conditionTokens xs) := by
  have hand : ∀ t : Text, Text.ofString " AND " ++ t =
      CodePoint.ofChar ' ' :: (Text.ofString "AND" ++ CodePoint.ofChar ' ' :: t) := fun t => by rfl
  induction xs with
  | nil => exact Lexis.reads_nil
  | cons x xs ih =>
    have hx := @reads_condition dialect x (h x List.mem_cons_self)
    cases xs with
    | nil =>
      rw [List.map_singleton, List.intercalate_singleton]
      exact hx
    | cons x' xs =>
      have hmore := ih fun y hy => h y (List.mem_cons_of_mem _ hy)
      rw [conditionTokens]
      · rw [List.map_cons, List.map_cons, List.intercalate_cons_cons, ← List.map_cons, List.append_assoc, hand]
        exact hx.append ((reads_keyword (w := Text.ofString "AND") (by decide) (by decide) hmore).space isBlank_space)
          (Lexis.boundary_space isBlank_space _)
      · exact List.cons_ne_nil _ _

/-- What is written down reads as the tokens of the query. -/
theorem reads_spell {q : Select} (h : Plain q) : (lexis dialect).Reads (spell dialect q) q.tokens := by
  have hcolumns : (lexis dialect).Reads
      (if q.columns = [] then Text.ofString "*" else (Text.ofString ", ").intercalate (q.columns.map (quoted dialect)))
      q.columnTokens := by
    unfold Select.columnTokens
    split
    · exact Lexis.reads_nil.symbol (isSymbol_of (by decide) (by decide) (by decide))
    · exact reads_names (isSymbol_of (by decide) (by decide) (by decide)) (.inr rfl) h.columns
  have htable : (lexis dialect).Reads ([CodePoint.ofChar '.'].intercalate (q.table.map (quoted dialect)))
      (nameTokens '.' q.table) :=
    reads_names (isSymbol_of (by decide) (by decide) (by decide)) (.inl rfl) h.table
  have hwhere : ∃ text, (if q.conditions = [] then []
      else Text.ofString " WHERE " ++ (Text.ofString " AND ").intercalate (q.conditions.map (spellCondition dialect))) = text ∧
      (lexis dialect).Reads text q.whereTokens ∧ (lexis dialect).Boundary text := by
    refine ⟨_, rfl, ?_⟩
    unfold Select.whereTokens
    split
    · exact ⟨Lexis.reads_nil, Lexis.boundary_nil⟩
    · rw [show ∀ t : Text, Text.ofString " WHERE " ++ t =
        CodePoint.ofChar ' ' :: (Text.ofString "WHERE" ++ CodePoint.ofChar ' ' :: t) from fun t => by rfl]
      exact ⟨(reads_keyword (w := Text.ofString "WHERE") (by decide) (by decide)
        (reads_conditions h.conditions)).space isBlank_space, Lexis.boundary_space isBlank_space _⟩
  have horder : ∃ text, (match q.orderBy with
      | none => []
      | some column => Text.ofString " ORDER BY " ++ quoted dialect column) = text ∧
      (lexis dialect).Reads text q.orderTokens ∧ (lexis dialect).Boundary text := by
    refine ⟨_, rfl, ?_⟩
    unfold Select.orderTokens
    cases horder : q.orderBy with
    | none => exact ⟨Lexis.reads_nil, Lexis.boundary_nil⟩
    | some column =>
      dsimp only
      rw [show ∀ t : Text, Text.ofString " ORDER BY " ++ t = CodePoint.ofChar ' ' :: (Text.ofString "ORDER" ++
        CodePoint.ofChar ' ' :: (Text.ofString "BY" ++ CodePoint.ofChar ' ' :: t)) from fun t => by rfl]
      exact ⟨(reads_keyword (w := Text.ofString "ORDER") (by decide) (by decide)
        (reads_keyword (w := Text.ofString "BY") (by decide) (by decide)
          (reads_name (h.orderBy column horder)))).space isBlank_space, Lexis.boundary_space isBlank_space _⟩
  have hlimit : ∃ text, (match q.limit with
      | none => []
      | some name => Text.ofString " LIMIT :" ++ name) = text ∧
      (lexis dialect).Reads text q.limitTokens ∧ (lexis dialect).Boundary text := by
    refine ⟨_, rfl, ?_⟩
    unfold Select.limitTokens
    cases hlimit : q.limit with
    | none => exact ⟨Lexis.reads_nil, Lexis.boundary_nil⟩
    | some name =>
      dsimp only
      rw [show ∀ t : Text, Text.ofString " LIMIT :" ++ t = CodePoint.ofChar ' ' :: (Text.ofString "LIMIT" ++
        CodePoint.ofChar ' ' :: CodePoint.ofChar ':' :: t) from fun t => by rfl]
      exact ⟨(reads_keyword (w := Text.ofString "LIMIT") (by decide) (by decide)
        (Lexis.reads_bind (List.all_eq_true.1 (h.limit name hlimit)))).space isBlank_space,
        Lexis.boundary_space isBlank_space _⟩
  obtain ⟨where_, hwhere, hreadsWhere, hboundWhere⟩ := hwhere
  obtain ⟨order, horder, hreadsOrder, hboundOrder⟩ := horder
  obtain ⟨limit, hlimit, hreadsLimit, hboundLimit⟩ := hlimit
  rw [spell]
  simp only [hwhere, horder, hlimit]
  have hfrom := (reads_keyword (w := Text.ofString "FROM") (by decide) (by decide) htable).space
    (@isBlank_space dialect)
  have hselect := reads_keyword (w := Text.ofString "SELECT") (by decide) (by decide)
    (hcolumns.append hfrom (Lexis.boundary_space isBlank_space _))
  have hall := ((hselect.append hreadsWhere hboundWhere).append hreadsOrder hboundOrder).append hreadsLimit hboundLimit
  rw [Select.tokens]
  refine Eq.mp (congrArg₂ _ ?_ ?_) hall
  · have hselect : ∀ t : Text, Text.ofString "SELECT " ++ t = Text.ofString "SELECT" ++ CodePoint.ofChar ' ' :: t :=
      fun t => by rfl
    have hfrom : ∀ t : Text, Text.ofString " FROM " ++ t =
        CodePoint.ofChar ' ' :: (Text.ofString "FROM" ++ CodePoint.ofChar ' ' :: t) := fun t => by rfl
    simp only [List.append_assoc, List.cons_append, hselect, hfrom]
  · rfl

/-! ## The statement is the query -/

theorem quoteIdentifier_ok {name t : Text} :
    quoteIdentifier name dialect = .ok t ↔ isIdentifier name = true ∧ t = quoted dialect name := by
  rw [quoteIdentifier, map_ok, validateIdentifier]
  constructor
  · rintro ⟨n, hn, rfl⟩
    split at hn
    · next h =>
      cases hn
      exact ⟨h, rfl⟩
    · cases hn
  · rintro ⟨h, rfl⟩
    exact ⟨name, if_pos h, rfl⟩

theorem quoteNames_ok {names quotedNames : List Text} :
    names.mapM (quoteIdentifier · dialect) = .ok quotedNames ↔
      (∀ n ∈ names, isIdentifier n = true) ∧ quotedNames = names.map (quoted dialect) := by
  rw [mapM_ok]
  simp only [quoteIdentifier_ok]
  constructor
  · intro h
    induction h with
    | nil => exact ⟨List.forall_mem_nil _, rfl⟩
    | cons hn _ ih => exact ⟨List.forall_mem_cons.2 ⟨hn.1, ih.1⟩, by rw [List.map_cons, hn.2, ih.2]⟩
  · rintro ⟨h, rfl⟩
    rw [List.forall₂_map_right_iff]
    exact List.forall₂_same.2 fun n hn => ⟨h n hn, rfl⟩

theorem qualifiedTable_ok {table t : Text} : qualifiedTable table dialect = .ok t ↔
    ((table.splitOn (CodePoint.ofChar '.')).length ≤ 2 ∧ ∀ n ∈ table.splitOn (CodePoint.ofChar '.'), isIdentifier n = true) ∧
      t = [CodePoint.ofChar '.'].intercalate ((table.splitOn (CodePoint.ofChar '.')).map (quoted dialect)) := by
  unfold qualifiedTable
  dsimp only
  split
  · next h => exact iff_of_false (fun h => nomatch h) fun hall => absurd hall.1.1 (Nat.not_le.2 h)
  · next h =>
    rw [map_ok]
    constructor
    · rintro ⟨names, hnames, rfl⟩
      obtain ⟨hvalid, rfl⟩ := quoteNames_ok.1 hnames
      exact ⟨⟨Nat.le_of_not_lt h, hvalid⟩, rfl⟩
    · rintro ⟨⟨-, hvalid⟩, rfl⟩
      exact ⟨_, quoteNames_ok.2 ⟨hvalid, rfl⟩, rfl⟩

variable {s : DatabaseSource}

/-- The names can be written down. -/
def Valid (s : DatabaseSource) (name : Text) : Prop :=
  (name.splitOn (CodePoint.ofChar '.')).length ≤ 2 ∧ ∀ n ∈ s.names name, isIdentifier n = true

/-- The parameters that go with the statement. -/
def queryParams (s : DatabaseSource) : Dict :=
  let params := if s.timeColumn.isSome then s.clauseParams s.params else s.params
  match s.limit with
  | none => params
  | some n => params.set (Text.ofString "row_limit") (.int n)

theorem selected_ok {t : Text} : s.selected = .ok t ↔ (∀ n ∈ s.columns, isIdentifier n = true) ∧
    t = if s.columns = [] then Text.ofString "*" else (Text.ofString ", ").intercalate (s.columns.map (quoted s.dialect)) := by
  unfold selected
  split
  · next hnil =>
    rw [hnil]
    constructor
    · rintro ⟨⟩
      exact ⟨List.forall_mem_nil _, rfl⟩
    · rintro ⟨-, rfl⟩
      rfl
  · rw [map_ok]
    constructor
    · rintro ⟨names, hnames, rfl⟩
      obtain ⟨hvalid, rfl⟩ := quoteNames_ok.1 hnames
      exact ⟨hvalid, rfl⟩
    · rintro ⟨hvalid, rfl⟩
      exact ⟨_, quoteNames_ok.2 ⟨hvalid, rfl⟩, rfl⟩

/-- The time column, where there is one. -/
theorem timed_ok {r : List Text × Text × Dict} : s.timed = .ok r ↔ (∀ n ∈ s.timeColumn, isIdentifier n = true) ∧
    r = match s.timeColumn with
      | none => ([], [], s.params)
      | some column => (s.clauses (quoted s.dialect column), Text.ofString " ORDER BY " ++ quoted s.dialect column,
          s.clauseParams s.params) := by
  unfold timed
  cases s.timeColumn with
  | none => exact ⟨fun h => by cases h; exact ⟨(fun n hn => nomatch hn), rfl⟩, fun h => by rw [h.2]⟩
  | some column =>
    simp only [map_ok, quoteIdentifier_ok, Option.mem_some_iff, forall_eq']
    constructor
    · rintro ⟨n, ⟨hn, rfl⟩, rfl⟩
      exact ⟨hn, rfl⟩
    · rintro ⟨hn, rfl⟩
      exact ⟨_, ⟨hn, rfl⟩, rfl⟩

/-- The clauses on a column are the conditions written down. -/
theorem clauses_eq (dialect column name : Text) (h : s.timeColumn = some column) :
    s.clauses (quoted dialect column) = (s.select name).conditions.map (spellCondition dialect) := by
  have hge : Text.ofString " >= :" ++ Text.ofString "since" = Text.ofString " >= :since" := by decide
  have hlt : Text.ofString " < :" ++ Text.ofString "until" = Text.ofString " < :until" := by decide
  rw [clauses, select, h]
  dsimp only
  cases s.since <;> cases s.until_ <;> simp [spellCondition, hge, hlt]

/-- The parts put together are the query written down. -/
theorem assemble_eq (name : Text) {parts : List Text × Text × Dict} (h : s.timed = .ok parts) :
    s.assemble ([CodePoint.ofChar '.'].intercalate ((name.splitOn (CodePoint.ofChar '.')).map (quoted s.dialect)))
      (if s.columns = [] then Text.ofString "*" else (Text.ofString ", ").intercalate (s.columns.map (quoted s.dialect))) parts =
      (spell s.dialect (s.select name), s.queryParams) := by
  have hlimit : Text.ofString " LIMIT :" ++ Text.ofString "row_limit" = Text.ofString " LIMIT :row_limit" := by decide
  rw [(timed_ok.1 h).2, spell, queryParams, assemble]
  cases hcolumn : s.timeColumn with
  | none =>
    simp only [select, hcolumn]
    cases s.limit <;> simp [hlimit]
  | some column =>
    have hclauses := clauses_eq s.dialect column name hcolumn
    have horder : (s.select name).orderBy = some column := hcolumn
    have hq : (s.select name).limit = if s.limit.isSome then some (Text.ofString "row_limit") else none := rfl
    simp only [hclauses, List.map_eq_nil_iff, horder, hq]
    by_cases hnil : (s.select name).conditions = []
    · simp only [if_pos hnil]
      cases s.limit <;> by_cases hcolumns : s.columns = [] <;> simp [hlimit, select, hcolumns]
    · simp only [if_neg hnil]
      cases s.limit <;> by_cases hcolumns : s.columns = [] <;> simp [hlimit, select, hcolumns]

/-- The statement is the query written down, and it is there exactly if the names are valid. -/
theorem buildQuery_ok {name : Text} (htarget : s.target = .table name) {r : Text × Dict} :
    s.buildQuery = .ok r ↔ s.Valid name ∧ r = (spell s.dialect (s.select name), s.queryParams) := by
  have hvalid : s.Valid name ↔ ((name.splitOn (CodePoint.ofChar '.')).length ≤ 2 ∧
      ∀ n ∈ name.splitOn (CodePoint.ofChar '.'), isIdentifier n = true) ∧
      (∀ n ∈ s.columns, isIdentifier n = true) ∧ ∀ n ∈ s.timeColumn, isIdentifier n = true := by
    simp only [Valid, names, List.forall_mem_append, Option.mem_toList, Option.mem_def, and_assoc]
  rw [buildQuery, htarget, hvalid]
  simp only [bind_ok, qualifiedTable_ok, selected_ok]
  constructor
  · rintro ⟨table, ⟨htable, rfl⟩, selected, ⟨hcolumns, rfl⟩, parts, hparts, h⟩
    cases h
    exact ⟨⟨htable, hcolumns, (timed_ok.1 hparts).1⟩, assemble_eq name hparts⟩
  · rintro ⟨⟨htable, hcolumns, htime⟩, rfl⟩
    have hparts := timed_ok.2 ⟨htime, rfl⟩
    exact ⟨_, ⟨htable, rfl⟩, _, ⟨hcolumns, rfl⟩, _, hparts, congrArg Except.ok (assemble_eq name hparts)⟩

theorem plain_select {name : Text} (h : s.Valid name) : Plain (s.select name) := by
  obtain ⟨-, h⟩ := h
  simp only [names, List.forall_mem_append, Option.mem_toList] at h
  obtain ⟨⟨htable, hcolumns⟩, htime⟩ := h
  refine ⟨hcolumns, htable, fun x hx => ?_, htime, fun p hp => ?_⟩
  · rw [select] at hx
    cases hcolumn : s.timeColumn with
    | none =>
      rw [hcolumn] at hx
      cases hx
    | some column =>
      rw [hcolumn] at hx
      have hident := htime column hcolumn
      rcases List.mem_append.1 hx with hx | hx <;> split at hx
      · rw [List.mem_singleton.1 hx]
        exact ⟨hident, show (Text.ofString "since").all isIdentifierChar = true by decide⟩
      · cases hx
      · rw [List.mem_singleton.1 hx]
        exact ⟨hident, show (Text.ofString "until").all isIdentifierChar = true by decide⟩
      · cases hx
  · rw [select, Option.mem_def] at hp
    dsimp only at hp
    split at hp
    · cases hp
      decide
    · cases hp

theorem lex_spell {name : Text} (h : s.Valid name) :
    (lexis s.dialect).lex (spell s.dialect (s.select name)) = some (s.select name).tokens :=
  (reads_spell (plain_select h)).lex

theorem parse_select (s : DatabaseSource) (name : Text) : parse (s.select name).tokens = some (s.select name) :=
  parse_tokens _ (List.splitOn_ne_nil _ _)

/-- Each parameter of the query has the value of its setting. -/
structure Bound (s : DatabaseSource) (name : Text) (params : Dict) : Prop where
  conditions : ∀ x ∈ (s.select name).conditions, ∃ d,
    (match x.comparison with | .ge => s.since | .lt => s.until_) = some d ∧ params.get? x.param = some (.datetime d)
  limit : ∀ p ∈ (s.select name).limit, ∃ n, s.limit = some n ∧ params.get? p = some (.int n)

theorem get?_clauseParams_since (s : DatabaseSource) (params : Dict) {d : Datetime} (h : s.since = some d) :
    (s.clauseParams params).get? (Text.ofString "since") = some (.datetime d) := by
  rw [clauseParams, h]
  cases s.until_ with
  | none => rw [Dict.get?_set, if_pos rfl]
  | some e => rw [Dict.get?_set, if_neg (by decide), Dict.get?_set, if_pos rfl]

theorem get?_clauseParams_until (s : DatabaseSource) (params : Dict) {d : Datetime} (h : s.until_ = some d) :
    (s.clauseParams params).get? (Text.ofString "until") = some (.datetime d) := by
  rw [clauseParams, h, Dict.get?_set, if_pos rfl]

theorem bound_queryParams (s : DatabaseSource) (name : Text) : s.Bound name s.queryParams := by
  have hother : ∀ p, p ≠ Text.ofString "row_limit" →
      s.queryParams.get? p = (if s.timeColumn.isSome then s.clauseParams s.params else s.params).get? p := fun p hp => by
    rw [queryParams]
    cases s.limit with
    | none => rfl
    | some n => rw [Dict.get?_set, if_neg hp]
  constructor
  · intro x hx
    rw [select] at hx
    cases hcolumn : s.timeColumn with
    | none =>
      rw [hcolumn] at hx
      cases hx
    | some column =>
      rw [hcolumn] at hx
      rcases List.mem_append.1 hx with hx | hx <;> split at hx
      · next hsince =>
        obtain ⟨d, hd⟩ := Option.isSome_iff_exists.1 hsince
        rw [List.mem_singleton.1 hx]
        refine ⟨d, hd, ?_⟩
        rw [hother _ (show Text.ofString "since" ≠ Text.ofString "row_limit" by decide), hcolumn]
        exact get?_clauseParams_since s _ hd
      · cases hx
      · next huntil =>
        obtain ⟨d, hd⟩ := Option.isSome_iff_exists.1 huntil
        rw [List.mem_singleton.1 hx]
        refine ⟨d, hd, ?_⟩
        rw [hother _ (show Text.ofString "until" ≠ Text.ofString "row_limit" by decide), hcolumn]
        exact get?_clauseParams_until s _ hd
      · cases hx
  · intro p hp
    rw [select, Option.mem_def] at hp
    dsimp only at hp
    split at hp
    · next hlimit =>
      obtain ⟨n, hn⟩ := Option.isSome_iff_exists.1 hlimit
      cases hp
      refine ⟨n, hn, ?_⟩
      rw [queryParams, hn, Dict.get?_set, if_pos rfl]
    · cases hp

/-- Of a table, the statement is built exactly if the names are valid, and then it is the configured
query and no other, with the settings as its parameters: no name leaves its quotes or holds a
parameter of its own, and no value has a say in the text. -/
theorem buildQuery_means (s : DatabaseSource) {name : Text} (htarget : s.target = .table name) :
    ((∃ r, s.buildQuery = .ok r) ↔ s.Valid name) ∧
    ∀ sql params, s.buildQuery = .ok (sql, params) →
      (lexis s.dialect).lex sql = some (s.select name).tokens ∧ parse (s.select name).tokens = some (s.select name) ∧
      (∀ n ∈ s.names name, CodePoint.ofChar ':' ∉ n) ∧ s.Bound name params ∧
      ∀ (s' : DatabaseSource) name' sql' params', s'.target = .table name' → s'.dialect = s.dialect → s'.select name' = s.select name →
        s'.buildQuery = .ok (sql', params') → sql' = sql := by
  refine ⟨⟨fun ⟨r, hr⟩ => ((buildQuery_ok htarget).1 hr).1, fun h => ⟨_, (buildQuery_ok htarget).2 ⟨h, rfl⟩⟩⟩, ?_⟩
  intro sql params h
  obtain ⟨hvalid, heq⟩ := (buildQuery_ok htarget).1 h
  cases heq
  refine ⟨lex_spell hvalid, parse_select s name, fun n hn => notMem_identifier (hvalid.2 n hn) (by decide) (by decide), bound_queryParams s name, ?_⟩
  intro s' name' sql' params' htarget' hdialect hselect h'
  cases ((buildQuery_ok htarget').1 h').2
  rw [hdialect, hselect]

/-! ## Reading window by window -/

section
variable {V : Type} [LinearOrder V]

/-- What `read` yields: the rows the database returns for the statement, as it reads it. -/
def execute (db : Database V) (s : DatabaseSource) : Option (List (Row V)) :=
  s.buildQuery.toOption.bind fun r => (((lexis s.dialect).lex r.1).bind parse).bind (db.run r.2)

/-- The source with other bounds. -/
def window (s : DatabaseSource) (w : Datetime × Datetime) : DatabaseSource := { s with since := some w.1, until_ := some w.2 }

theorem mapM_some {α β : Type} {f : α → Option β} {g : α → β} (h : ∀ x, f x = some (g x)) (xs : List α) :
    xs.mapM f = some (xs.map g) := by
  induction xs with
  | nil => rfl
  | cons x xs ih => rw [List.mapM_cons, h, ih, List.map_cons]; rfl

end

/-! A table of four rows. -/

/-- Nulls first. -/
def before (x y : Option Int) : Bool := x.all fun v => y.any fun w => v ≤ w

def timeName : Text := Text.ofString "ts"

def row (id : Int) (time : Option Int) : Row Int := fun column =>
  if column = timeName then time else if column = Text.ofString "id" then some id else none

def tableSource : DatabaseSource where
  target := .table (Text.ofString "public.logs")
  params := []
  columns := [Text.ofString "id"]
  timestampColumn := some timeName
  since := none
  until_ := none
  limit := none
  dialect := Text.ofString "mysql"

theorem buildQuery_means_table : ∃ sql params, tableSource.buildQuery = .ok (sql, params) ∧
    (lexis tableSource.dialect).lex sql = some (tableSource.select (Text.ofString "public.logs")).tokens :=
  ⟨_, _, rfl, ((buildQuery_means tableSource rfl).2 _ _ rfl).1⟩

end DatabaseSource

end LogAnalytics
