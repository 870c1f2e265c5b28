import LogAnalytics.Search.Parser
/-!
# The compiler

A syntax tree compiles to a SQL predicate and its bound parameters. `Piece` says what the
predicate is made of: fragments of a fixed vocabulary and placeholders, each with the value
bound to it. What is not a placeholder depends on the tree's shape alone.
-/

namespace LogAnalytics.Search

variable {F : Type}

/-- A bound parameter; `None` is a NULL. -/
abbrev Param (F : Type) := Option (Value F)

/-- `sep.join(parts)` -/
def joinStrings (sep : String) : List String → String
  | [] => ""
  | [s] => s
  | s :: ss => s ++ sep ++ joinStrings sep ss

def Comparison.compile (c : Comparison F) : String × List (Param F) :=
  if c.values ≠ [] then
    (c.column.name ++ " IN (" ++ joinStrings ", " (c.values.map fun _ => "?") ++ ")", c.values.map some)
  else
    match c.operator.sql with
    | none => (c.column.name ++ "::VARCHAR ILIKE ? ESCAPE '\\'", [c.value])
    | some op => (c.column.name ++ " " ++ op ++ " ?", [c.value])

def Connective.sql : Connective → String
  | .and => "AND"
  | .or => "OR"

mutual

def Node.compile : Node F → String × List (Param F)
  | .comparison c => c.compile
  | .freeText value =>
    let pattern := chr '%' :: escapeLike value ++ [chr '%']
    ("(message ILIKE ? ESCAPE '\\' OR raw_message ILIKE ? ESCAPE '\\')", [some (.text pattern), some (.text pattern)])
  | .not child => ("NOT (" ++ child.compile.1 ++ ")", child.compile.2)
  | .boolOp op children =>
    (joinStrings (" " ++ op.sql ++ " ") (compileAll children).1, (compileAll children).2)

/-- The loop over the children of a `BoolOp`. -/
def compileAll : List (Node F) → List String × List (Param F)
  | [] => ([], [])
  | child :: children =>
    (("(" ++ child.compile.1 ++ ")") :: (compileAll children).1, child.compile.2 ++ (compileAll children).2)

end

structure CompiledQuery (F : Type) where
  sql : String
  params : List (Param F)
  text : Text

namespace CompiledQuery

def ofTree (text : Text) : Option (Node F) → CompiledQuery F
  | none => { sql := "", params := [], text := text }
  | some n => { sql := n.compile.1, params := n.compile.2, text := text }

end CompiledQuery

/-! ## The two entry points -/

/-- What a filter map gives for a field: `None`, a scalar by its `str`, or a list of them. -/
inductive FilterValue where
  | none
  | scalar (text : Text)
  | list (texts : List Text)

/-- The nodes of a filter map. -/
def filterNodes (b : Builtins F) : List (Text × FilterValue) → Except SearchError (List (Node F))
  | [] => .ok []
  | (name, value) :: filters =>
    match value with
    | .none => filterNodes b filters
    | .scalar text =>
      if text = [] then filterNodes b filters
      else do
        let column ← resolveColumn b name
        let c ← buildComparison b column (Text.ofString "=") [text]
        let ns ← filterNodes b filters
        .ok (.comparison c :: ns)
    | .list texts => do
      let column ← resolveColumn b name
      let items := texts.take maxInValues
      if items = [] then filterNodes b filters
      else
        let c ← buildComparison b column (Text.ofString "=") items
        let ns ← filterNodes b filters
        .ok (.comparison c :: ns)

/-- A query text, or a structured filter map. -/
inductive SearchInput where
  | query (text : Text)
  | filters (map : List (Text × FilterValue))

namespace SearchInput

/-- The tree an input is parsed to, if it has any. -/
def tree (b : Builtins F) : SearchInput → Except SearchError (Option (Node F))
  | query text =>
    let stripped := text.strip
    if stripped = [] then .ok none
    else do
      let tokens ← tokenize b.case stripped
      parse b tokens
  | filters map => do
    let ns ← filterNodes b map
    .ok (if ns = [] then none else some (collapse .and ns))

/-- `compile_query` and `compile_filters` -/
def compile (b : Builtins F) (input : SearchInput) : Except SearchError (CompiledQuery F) := do
  let tree ← input.tree b
  .ok (CompiledQuery.ofTree (match input with | query text => text.strip | filters _ => []) tree)

end SearchInput

/-! ## Pieces -/

/-- A part of a predicate: a fragment of the vocabulary, or a placeholder and what is bound to it. -/
inductive Piece (F : Type) where
  | lit (s : String)
  | hole (p : Param F)

namespace Piece

def text : Piece F → String
  | lit s => s
  | hole _ => "?"

def param? : Piece F → Option (Param F)
  | lit _ => none
  | hole p => some p

/-- The predicate the pieces spell. -/
def sql : List (Piece F) → String
  | [] => ""
  | p :: ps => p.text ++ sql ps

/-- What is bound, in the order of the placeholders. -/
def params (ps : List (Piece F)) : List (Param F) := ps.filterMap param?

@[simp] theorem sql_nil : sql ([] : List (Piece F)) = "" := rfl

@[simp] theorem sql_lit (s : String) (ps : List (Piece F)) : sql (lit s :: ps) = s ++ sql ps := rfl

@[simp] theorem sql_hole (p : Param F) (ps : List (Piece F)) : sql (hole p :: ps) = "?" ++ sql ps := rfl

@[simp] theorem params_nil : params ([] : List (Piece F)) = [] := rfl

@[simp] theorem params_lit (s : String) (ps : List (Piece F)) : params (lit s :: ps) = params ps := rfl

@[simp] theorem params_hole (p : Param F) (ps : List (Piece F)) : params (hole p :: ps) = p :: params ps := rfl

theorem sql_append (ps qs : List (Piece F)) : sql (ps ++ qs) = sql ps ++ sql qs := by
  induction ps with
  | nil => simp [sql]
  | cons p ps ih => simp [sql, ih, String.append_assoc]

theorem params_append (ps qs : List (Piece F)) : params (ps ++ qs) = params ps ++ params qs := by
  simp [params]

/-- Pieces with a fragment between them. -/
def join (sep : String) : List (List (Piece F)) → List (Piece F)
  | [] => []
  | [ps] => ps
  | ps :: pss => ps ++ [lit sep] ++ join sep pss

theorem sql_join (sep : String) : ∀ pss : List (List (Piece F)), sql (join sep pss) = joinStrings sep (pss.map sql)
  | [] => rfl
  | [ps] => rfl
  | ps :: qs :: pss => by
    rw [join, sql_append, sql_append, sql_join sep (qs :: pss)]
    · simp [joinStrings, sql, text]
    · simp

theorem params_join (sep : String) : ∀ pss : List (List (Piece F)), params (join sep pss) = pss.flatMap params
  | [] => rfl
  | [ps] => by simp [join]
  | ps :: qs :: pss => by
    rw [join, params_append, params_append, params_join sep (qs :: pss)]
    · simp [params, param?]
    · simp

end Piece

/-- The fragments a predicate can be made of. -/
def vocabulary : List String :=
  Column.all.map Column.name ++ ["=", "<>", ">", ">=", "<", "<="] ++
    ["(", ")", ", ", " ", " AND ", " OR ", "NOT ", " IN ", " ILIKE ", " ESCAPE ", "::VARCHAR", "'\\'"]

open Piece in
def Comparison.pieces (c : Comparison F) : List (Piece F) :=
  if c.values ≠ [] then
    [lit c.column.name, lit " IN ", lit "("] ++ join ", " (c.values.map fun v => [hole (some v)]) ++ [lit ")"]
  else
    match c.operator.sql with
    | none => [lit c.column.name, lit "::VARCHAR", lit " ILIKE ", hole c.value, lit " ESCAPE ", lit "'\\'"]
    | some op => [lit c.column.name, lit " ", lit op, lit " ", hole c.value]

/-- The fragment between two children. -/
def Connective.glue : Connective → String
  | .and => " AND "
  | .or => " OR "

open Piece in
mutual

def Node.pieces : Node F → List (Piece F)
  | .comparison c => c.pieces
  | .freeText value =>
    let pattern := chr '%' :: escapeLike value ++ [chr '%']
    [lit "(", lit "message", lit " ILIKE ", hole (some (.text pattern)), lit " ESCAPE ", lit "'\\'", lit " OR ",
      lit "raw_message", lit " ILIKE ", hole (some (.text pattern)), lit " ESCAPE ", lit "'\\'", lit ")"]
  | .not child => [lit "NOT ", lit "("] ++ child.pieces ++ [lit ")"]
  | .boolOp op children => join op.glue (piecesAll children)

def piecesAll : List (Node F) → List (List (Piece F))
  | [] => []
  | child :: children => ([lit "("] ++ child.pieces ++ [lit ")"]) :: piecesAll children

end

end LogAnalytics.Search
