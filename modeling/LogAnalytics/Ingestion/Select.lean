import LogAnalytics.Lib.Lexer
import LogAnalytics.Lib.ThreeValued
import LogAnalytics.Lib.Windows
import LogAnalytics.Models.Value
/-!
# The part of SQL that is sent to other databases

`SELECT` of a table's rows between bounds, ordered by a column and cut at a limit: its tokens, the
grammar that reads them, and what it makes of the rows.
-/
open LogAnalytics.Lib

namespace LogAnalytics

namespace Sql

inductive Comparison where
  | ge
  | lt
  deriving DecidableEq

/-- A column against a parameter. -/
structure Condition where
  column : Text
  comparison : Comparison
  param : Text
  deriving DecidableEq

/-- No columns are all of them. -/
structure Select where
  columns : List Text
  table : List Text
  conditions : List Condition
  orderBy : Option Text
  /-- The parameter that the limit is. -/
  limit : Option Text
  deriving DecidableEq

def kw (s : String) : Token CodePoint := .word (Text.ofString s)

def sym (c : Char) : Token CodePoint := .symbol (CodePoint.ofChar c)

/-! ## Its tokens -/

def nameTokens (c : Char) : List Text → List (Token CodePoint)
  | [] => []
  | [name] => [.quoted name]
  | name :: names => .quoted name :: sym c :: nameTokens c names

def Condition.tokens (x : Condition) : List (Token CodePoint) :=
  .quoted x.column :: (match x.comparison with | .ge => [sym '>', sym '='] | .lt => [sym '<']) ++ [.bind x.param]

def conditionTokens : List Condition → List (Token CodePoint)
  | [] => []
  | [x] => x.tokens
  | x :: xs => x.tokens ++ kw "AND" :: conditionTokens xs

namespace Select

variable (q : Select)

def columnTokens : List (Token CodePoint) := if q.columns = [] then [sym '*'] else nameTokens ',' q.columns

def whereTokens : List (Token CodePoint) := if q.conditions = [] then [] else kw "WHERE" :: conditionTokens q.conditions

def orderTokens : List (Token CodePoint) :=
  match q.orderBy with
  | none => []
  | some column => [kw "ORDER", kw "BY", .quoted column]

def limitTokens : List (Token CodePoint) :=
  match q.limit with
  | none => []
  | some name => [kw "LIMIT", .bind name]

def tokens : List (Token CodePoint) :=
  kw "SELECT" :: q.columnTokens ++ kw "FROM" :: nameTokens '.' q.table ++ q.whereTokens ++ q.orderTokens ++ q.limitTokens

end Select

/-! ## Its grammar -/

/-- Names with a symbol between them, and the tokens behind them. -/
def parseNames (c : Char) : List (Token CodePoint) → Option (List Text × List (Token CodePoint))
  | .quoted name :: .symbol d :: rest =>
    if d = CodePoint.ofChar c then (parseNames c rest).map fun r => (name :: r.1, r.2)
    else some ([name], .symbol d :: rest)
  | .quoted name :: rest => some ([name], rest)
  | _ => none

def parseColumns : List (Token CodePoint) → Option (List Text × List (Token CodePoint))
  | .symbol c :: rest => if c = CodePoint.ofChar '*' then some ([], rest) else none
  | ts => parseNames ',' ts

def parseCondition : List (Token CodePoint) → Option (Condition × List (Token CodePoint))
  | .quoted column :: .symbol c :: .symbol d :: .bind param :: rest =>
    if c = CodePoint.ofChar '>' ∧ d = CodePoint.ofChar '=' then some (⟨column, .ge, param⟩, rest) else none
  | .quoted column :: .symbol c :: .bind param :: rest =>
    if c = CodePoint.ofChar '<' then some (⟨column, .lt, param⟩, rest) else none
  | _ => none

/-- Conditions with `AND` between them; each takes some of the tokens. -/
def parseConditions : Nat → List (Token CodePoint) → Option (List Condition × List (Token CodePoint))
  | 0, _ => none
  | n + 1, ts =>
    match parseCondition ts with
    | none => none
    | some (x, .word w :: rest) =>
      if w = Text.ofString "AND" then (parseConditions n rest).map fun r => (x :: r.1, r.2) else some ([x], .word w :: rest)
    | some (x, rest) => some ([x], rest)

def parseWhere : List (Token CodePoint) → Option (List Condition × List (Token CodePoint))
  | .word w :: rest =>
    if w = Text.ofString "WHERE" then parseConditions rest.length rest else some ([], .word w :: rest)
  | ts => some ([], ts)

def parseOrder : List (Token CodePoint) → Option (Option Text × List (Token CodePoint))
  | .word w :: rest =>
    if w = Text.ofString "ORDER" then
      match rest with
      | .word v :: .quoted column :: rest => if v = Text.ofString "BY" then some (some column, rest) else none
      | _ => none
    else some (none, .word w :: rest)
  | ts => some (none, ts)

def parseLimit : List (Token CodePoint) → Option (Option Text)
  | [] => some none
  | [.word w, .bind name] => if w = Text.ofString "LIMIT" then some (some name) else none
  | _ => none

/-- The query that the tokens are; there are no others to it. -/
def parse : List (Token CodePoint) → Option Select
  | .word w :: rest =>
    if w = Text.ofString "SELECT" then
      match parseColumns rest with
      | some (columns, .word v :: rest) =>
        if v = Text.ofString "FROM" then
          (parseNames '.' rest).bind fun (table, rest) => (parseWhere rest).bind fun (conditions, rest) =>
            (parseOrder rest).bind fun (orderBy, rest) => (parseLimit rest).map fun limit =>
              ⟨columns, table, conditions, orderBy, limit⟩
        else none
      | _ => none
    else none
  | _ => none

/-- No symbol comes first. -/
def NoSymbol (ts : List (Token CodePoint)) : Prop := ∀ t ∈ ts.head?, ∀ c, t ≠ .symbol c

theorem parseNames_tokens (c : Char) {names : List Text} (hne : names ≠ []) {rest : List (Token CodePoint)}
    (hrest : NoSymbol rest) : parseNames c (nameTokens c names ++ rest) = some (names, rest) := by
  induction names with
  | nil => exact absurd rfl hne
  | cons name names ih =>
    cases names with
    | nil =>
      cases rest with
      | nil => rfl
      | cons t rest =>
        cases t with
        | symbol d => exact absurd rfl (hrest _ rfl d)
        | _ => rfl
    | cons name' names =>
      rw [nameTokens, sym]
      · simp only [List.cons_append, parseNames, if_true, ih (List.cons_ne_nil _ _), Option.map_some]
      · exact List.cons_ne_nil _ _

theorem parseColumns_tokens (q : Select) {rest : List (Token CodePoint)} (hrest : NoSymbol rest) :
    parseColumns (q.columnTokens ++ rest) = some (q.columns, rest) := by
  unfold Select.columnTokens
  split
  · next hnil =>
    rw [hnil]
    rfl
  · next hne =>
    have hnames := parseNames_tokens ',' hne hrest
    obtain ⟨name, names, hcons⟩ := List.exists_cons_of_ne_nil hne
    rw [hcons] at hnames ⊢
    cases names <;> exact hnames

theorem parseCondition_tokens (x : Condition) (rest : List (Token CodePoint)) :
    parseCondition (x.tokens ++ rest) = some (x, rest) := by
  obtain ⟨column, comparison, param⟩ := x
  cases comparison <;> rfl

/-- No other condition follows. -/
def NoAnd (ts : List (Token CodePoint)) : Prop := ts.head? ≠ some (kw "AND")

theorem parseConditions_tokens {xs : List Condition} (hne : xs ≠ []) {n : Nat} (hn : xs.length ≤ n)
    {rest : List (Token CodePoint)} (hrest : NoAnd rest) :
    parseConditions n (conditionTokens xs ++ rest) = some (xs, rest) := by
  induction xs generalizing n with
  | nil => exact absurd rfl hne
  | cons x xs ih =>
    obtain ⟨k, rfl⟩ := Nat.exists_eq_add_of_lt (show xs.length < n from hn)
    cases xs with
    | nil =>
      rw [conditionTokens, parseConditions, parseCondition_tokens]
      cases rest with
      | nil => rfl
      | cons t rest =>
        cases t with
        | word w => exact if_neg fun hw => hrest (by rw [hw]; rfl)
        | _ => rfl
    | cons x' xs =>
      have hmore := ih (List.cons_ne_nil _ _) (Nat.le_add_right _ k)
      rw [conditionTokens]
      · rw [List.append_assoc, parseConditions, parseCondition_tokens]
        simp only [kw, List.cons_append, if_true, hmore, Option.map_some]
      · exact List.cons_ne_nil _ _

theorem parseWhere_tokens (q : Select) {rest : List (Token CodePoint)} (hand : NoAnd rest)
    (hwhere : rest.head? ≠ some (kw "WHERE")) : parseWhere (q.whereTokens ++ rest) = some (q.conditions, rest) := by
  unfold Select.whereTokens
  split
  · next hnil =>
    rw [hnil]
    cases rest with
    | nil => rfl
    | cons t rest =>
      cases t with
      | word w => exact if_neg fun hw => hwhere (by rw [hw]; rfl)
      | _ => rfl
  · next hne =>
    rw [List.cons_append, kw, parseWhere]
    refine (if_pos rfl).trans (parseConditions_tokens hne ?_ hand)
    have hlength : ∀ xs : List Condition, xs.length ≤ (conditionTokens xs).length := by
      intro xs
      induction xs with
      | nil => exact Nat.zero_le _
      | cons x xs ih =>
        cases xs with
        | nil => simp [conditionTokens, Condition.tokens]
        | cons x' xs =>
          rw [conditionTokens]
          · simp only [List.length_cons, List.length_append] at ih ⊢
            omega
          · exact List.cons_ne_nil _ _
    rw [List.length_append]
    exact (hlength _).trans (Nat.le_add_right _ _)

theorem parseOrder_tokens (q : Select) : parseOrder (q.orderTokens ++ q.limitTokens) = some (q.orderBy, q.limitTokens) := by
  unfold Select.orderTokens
  cases q.orderBy with
  | some column => rfl
  | none =>
    unfold Select.limitTokens
    cases q.limit <;> rfl

theorem parseLimit_tokens (q : Select) : parseLimit q.limitTokens = some q.limit := by
  unfold Select.limitTokens
  cases q.limit <;> rfl

/-- What the grammar reads is what was written. -/
theorem parse_tokens (q : Select) (htable : q.table ≠ []) : parse q.tokens = some q := by
  have hhead : ∀ s : String, s ≠ "ORDER" → s ≠ "LIMIT" → (q.orderTokens ++ q.limitTokens).head? ≠ some (kw s) := by
    intro s horder hlimit h
    have hkw : ∀ t, kw t = kw s → t = s := fun t ht => Text.ofString_injective (Token.word.inj ht)
    cases ho : q.orderBy with
    | some column =>
      rw [Select.orderTokens, ho] at h
      exact horder (hkw _ (Option.some.inj h)).symm
    | none =>
      cases hl : q.limit with
      | some name =>
        rw [Select.orderTokens, Select.limitTokens, ho, hl] at h
        exact hlimit (hkw _ (Option.some.inj h)).symm
      | none =>
        rw [Select.orderTokens, Select.limitTokens, ho, hl] at h
        cases h
  have hsymbol : NoSymbol (q.whereTokens ++ (q.orderTokens ++ q.limitTokens)) := by
    rw [Select.whereTokens, Select.orderTokens, Select.limitTokens]
    split
    · split
      · split
        · intro t ht
          cases ht
        · rintro t ⟨⟩ c ⟨⟩
      · rintro t ⟨⟩ c ⟨⟩
    · rintro t ⟨⟩ c ⟨⟩
  have hfrom : ∀ rest, NoSymbol (kw "FROM" :: rest) := by
    rintro rest t ⟨⟩ c ⟨⟩
  rw [Select.tokens]
  simp only [List.cons_append, List.append_assoc]
  rw [kw, parse, if_pos rfl]
  rw [parseColumns_tokens q (hfrom _)]
  simp only [kw, if_true]
  rw [parseNames_tokens '.' htable hsymbol]
  simp only [Option.bind_some]
  rw [parseWhere_tokens q (hhead "AND" (by decide) (by decide)) (hhead "WHERE" (by decide) (by decide))]
  simp only [Option.bind_some]
  rw [parseOrder_tokens]
  simp only [Option.bind_some]
  rw [parseLimit_tokens]
  rfl

/-! ## Its meaning -/

/-- A row that is stored: `NULL` is no value. -/
abbrev Row (V : Type) := Text → Option V

/-- A database, as far as such a query depends on it. -/
structure Database (V : Type) [LinearOrder V] where
  rows : List Text → List (Row V)
  /-- What a parameter is compared as. -/
  bound : Value → V
  /-- `ORDER BY`, with some order of its own among equals. -/
  arrange : Text → List (Row V) → List (Row V)
  arrange_perm : ∀ column rows, (arrange column rows).Perm rows
  arrange_sorted : ∀ column rows, (arrange column rows).Pairwise fun r r' => ∀ v ∈ r column, ∀ v' ∈ r' column, v ≤ v'
  /-- `LIMIT` -/
  cut : Value → List (Row V) → List (Row V)

variable {V : Type} [LinearOrder V]

/-- A comparison with `NULL` is unknown. -/
def Condition.truth (x : Condition) (v : V) (r : Row V) : Truth :=
  (r x.column).map fun u =>
    match x.comparison with
    | .ge => decide (v ≤ u)
    | .lt => decide (u < v)

/-- The columns selected. -/
def project (columns : List Text) (r : Row V) : Row V := fun column =>
  if columns = [] ∨ column ∈ columns then r column else none

/-- The rows a query returns, with its parameters; a parameter that is missing is an error. -/
def Database.run (db : Database V) (params : Dict) (q : Select) : Option (List (Row V)) := do
  let truths ← q.conditions.mapM fun x => (params.get? x.param).map fun v => x.truth (db.bound v)
  let rows := (db.rows q.table).filter fun r => (truths.map (· r)).foldr Truth.and (some true) = some true
  let rows :=
    match q.orderBy with
    | none => rows
    | some column => db.arrange column rows
  let rows ←
    match q.limit with
    | none => some rows
    | some name => (params.get? name).map (db.cut · rows)
  some (rows.map (project q.columns))

end Sql

end LogAnalytics
