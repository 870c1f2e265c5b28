import Mathlib.Data.List.Basic
import LogAnalytics.Search.Compile
/-!
# No injection

No text of a query reaches the predicate: the predicate is spelled by pieces whose fragments
come from the vocabulary, its placeholders are the parameters in order, and two inputs whose
trees have one shape compile to one predicate.
-/

namespace LogAnalytics.Search

variable {F : Type}

/-- A tree without its values; of a value list its length is left. -/
inductive Shape where
  | comparison (column : Column) (operator : Operator) (values : Nat)
  | freeText
  | not (child : Shape)
  | boolOp (operator : Connective) (children : List Shape)

mutual

def Node.shape : Node F → Shape
  | .comparison c => .comparison c.column c.operator c.values.length
  | .freeText _ => .freeText
  | .not child => .not child.shape
  | .boolOp op children => .boolOp op (shapeAll children)

def shapeAll : List (Node F) → List Shape
  | [] => []
  | child :: children => child.shape :: shapeAll children

end

/-! ## Pieces spell the predicate -/

theorem Comparison.compile_pieces (c : Comparison F) :
    c.compile = (Piece.sql c.pieces, Piece.params c.pieces) := by
  unfold Comparison.compile Comparison.pieces
  split
  · have hsql : Piece.sql (Piece.join ", " (c.values.map fun v => [Piece.hole (some v)])) =
        joinStrings ", " (c.values.map fun _ => "?") := by
      rw [Piece.sql_join, List.map_map]
      simp [Function.comp_def]
    have hparams : Piece.params (Piece.join ", " (c.values.map fun v => [Piece.hole (some v)])) = c.values.map some := by
      rw [Piece.params_join, List.flatMap_map]
      simp [List.map_eq_flatMap]
    refine Prod.ext ?_ ?_
    · simp only [Piece.sql_append, hsql]
      simp [String.append_assoc]
    · simp only [Piece.params_append, hparams]
      simp
  · cases c.operator.sql with
    | none => simp
    | some op => simp [String.append_assoc]

theorem compileAll_eq (ns : List (Node F)) :
    compileAll ns = (ns.map fun n => "(" ++ n.compile.1 ++ ")", ns.flatMap fun n => n.compile.2) := by
  induction ns with
  | nil => rfl
  | cons n ns ih => simp [compileAll, ih]

theorem piecesAll_eq (ns : List (Node F)) :
    piecesAll ns = ns.map fun n => [Piece.lit "("] ++ n.pieces ++ [Piece.lit ")"] := by
  induction ns with
  | nil => rfl
  | cons n ns ih => simp [piecesAll, ih]

theorem compile_pieces (n : Node F) : n.compile = (Piece.sql n.pieces, Piece.params n.pieces) := by
  induction n using Node.induct with
  | comparison c => exact c.compile_pieces
  | freeText t => simp [Node.compile, Node.pieces]
  | not n ih =>
    rw [Node.compile, Node.pieces, ih]
    have hnot : "NOT (" = "NOT " ++ "(" := rfl
    simp only [Piece.sql_append, Piece.params_append, Piece.sql_lit, Piece.sql_nil, Piece.params_lit, Piece.params_nil,
      String.append_empty, List.nil_append, List.append_nil, hnot, String.append_assoc]
  | boolOp op ns ih =>
    have hsql : ns.map (fun n => "(" ++ n.compile.1 ++ ")") = (piecesAll ns).map Piece.sql := by
      rw [piecesAll_eq, List.map_map]
      apply List.map_congr_left
      intro n hn
      simp [ih n hn, Piece.sql_append, String.append_assoc]
    have hparams : ns.flatMap (fun n => n.compile.2) = (piecesAll ns).flatMap Piece.params := by
      rw [piecesAll_eq, List.flatMap_map]
      apply List.flatMap_congr
      intro n hn
      simp [ih n hn, Piece.params_append]
    rw [Node.compile, Node.pieces, compileAll_eq, hsql, hparams, Piece.sql_join, Piece.params_join]
    cases op <;> rfl

/-! ## Pieces come from the vocabulary -/

/-- Every fragment is in the vocabulary. -/
def Spelled (ps : List (Piece F)) : Prop := ∀ s, Piece.lit s ∈ ps → s ∈ vocabulary

theorem Spelled.append {ps qs : List (Piece F)} (hp : Spelled ps) (hq : Spelled qs) : Spelled (ps ++ qs) := by
  intro s hs
  rcases List.mem_append.1 hs with h | h
  · exact hp s h
  · exact hq s h

theorem Spelled.join {sep : String} (hsep : sep ∈ vocabulary) :
    ∀ {pss : List (List (Piece F))}, (∀ ps ∈ pss, Spelled ps) → Spelled (Piece.join sep pss)
  | [], _ => by intro s hs; cases hs
  | [ps], h => h ps List.mem_cons_self
  | ps :: qs :: pss, h => by
    rw [Piece.join]
    · refine ((h ps List.mem_cons_self).append ?_).append (Spelled.join hsep fun qs hq => h qs (List.mem_cons_of_mem _ hq))
      intro s hs
      cases List.mem_singleton.1 hs
      exact hsep
    · simp

theorem column_mem_vocabulary (c : Column) : c.name ∈ vocabulary := by
  cases c <;> decide

theorem operator_mem_vocabulary {o : Operator} {s : String} (h : o.sql = some s) : s ∈ vocabulary := by
  cases o <;> cases h <;> decide

theorem Comparison.pieces_spelled (c : Comparison F) : Spelled c.pieces := by
  have hcolumn := column_mem_vocabulary c.column
  unfold Comparison.pieces
  split
  · refine Spelled.append (Spelled.append ?_ (Spelled.join (by decide) ?_)) ?_
    · intro s hs
      simp only [List.mem_cons, List.not_mem_nil, or_false, Piece.lit.injEq] at hs
      rcases hs with rfl | rfl | rfl
      · exact hcolumn
      · decide
      · decide
    · intro ps hps s hs
      obtain ⟨v, -, rfl⟩ := List.mem_map.1 hps
      cases List.mem_singleton.1 hs
    · intro s hs
      cases List.mem_singleton.1 hs
      decide
  · cases ho : c.operator.sql with
    | none =>
      intro s hs
      simp only [List.mem_cons, List.not_mem_nil, or_false, Piece.lit.injEq, reduceCtorEq, false_or] at hs
      rcases hs with rfl | rfl | rfl | rfl | rfl
      · exact hcolumn
      · decide
      · decide
      · decide
      · decide
    | some op =>
      intro s hs
      simp only [List.mem_cons, List.not_mem_nil, or_false, Piece.lit.injEq, reduceCtorEq] at hs
      rcases hs with rfl | rfl | rfl | rfl
      · exact hcolumn
      · decide
      · exact operator_mem_vocabulary ho
      · decide

theorem pieces_spelled (n : Node F) : Spelled n.pieces := by
  induction n using Node.induct with
  | comparison c => exact c.pieces_spelled
  | freeText t =>
    intro s hs
    simp only [Node.pieces, List.mem_cons, List.not_mem_nil, or_false, Piece.lit.injEq, reduceCtorEq, false_or] at hs
    rcases hs with rfl | rfl | rfl | rfl | rfl | rfl | rfl | rfl | rfl | rfl | rfl <;> decide
  | not n ih =>
    rw [Node.pieces]
    refine Spelled.append (Spelled.append ?_ ih) ?_
    · intro s hs
      simp only [List.mem_cons, List.not_mem_nil, or_false, Piece.lit.injEq] at hs
      rcases hs with rfl | rfl <;> decide
    · intro s hs
      cases List.mem_singleton.1 hs
      decide
  | boolOp op ns ih =>
    rw [Node.pieces, piecesAll_eq]
    refine Spelled.join (by cases op <;> decide) ?_
    intro ps hps
    obtain ⟨n, hn, rfl⟩ := List.mem_map.1 hps
    refine Spelled.append (Spelled.append ?_ (ih n hn)) ?_
    · intro s hs
      cases List.mem_singleton.1 hs
      decide
    · intro s hs
      cases List.mem_singleton.1 hs
      decide

theorem vocabulary_count : ∀ s ∈ vocabulary, s.toList.count '?' = 0 := by decide

/-- The placeholders of a predicate are its parameters. -/
theorem count_placeholders {ps : List (Piece F)} (h : Spelled ps) :
    (Piece.sql ps).toList.count '?' = (Piece.params ps).length := by
  induction ps with
  | nil => rfl
  | cons p ps ih =>
    have hps := ih fun s hs => h s (List.mem_cons_of_mem _ hs)
    cases p with
    | lit s =>
      have hs := vocabulary_count s (h s List.mem_cons_self)
      simp [hps, hs]
    | hole p =>
      simp [hps, Nat.add_comm]

/-! ## The shape decides the predicate -/

theorem shapeAll_eq (ns : List (Node F)) : shapeAll ns = ns.map Node.shape := by
  induction ns with
  | nil => rfl
  | cons n ns ih => simp [shapeAll, ih]

theorem Comparison.sql_of_shape {c d : Comparison F} (hcolumn : c.column = d.column) (hop : c.operator = d.operator)
    (hlen : c.values.length = d.values.length) : c.compile.1 = d.compile.1 := by
  have hvalues : c.values = [] ↔ d.values = [] := by
    rw [← List.length_eq_zero_iff, hlen, List.length_eq_zero_iff]
  have hmarks : c.values.map (fun _ => "?") = d.values.map (fun _ => "?") := by
    rw [List.map_const', List.map_const', hlen]
  unfold Comparison.compile
  simp only [ne_eq, hvalues, hmarks, hcolumn, hop]
  split
  · rfl
  · split <;> rfl

theorem sql_of_shape (n : Node F) : ∀ m : Node F, n.shape = m.shape → n.compile.1 = m.compile.1 := by
  induction n using Node.induct with
  | comparison c =>
    intro m h
    cases m with
    | comparison d =>
      simp only [Node.shape, Shape.comparison.injEq] at h
      exact Comparison.sql_of_shape h.1 h.2.1 h.2.2
    | _ => cases h
  | freeText t =>
    intro m h
    cases m with
    | freeText u => rfl
    | _ => cases h
  | not n ih =>
    intro m h
    cases m with
    | not m =>
      simp only [Node.shape, Shape.not.injEq] at h
      rw [Node.compile, Node.compile, ih m h]
    | _ => cases h
  | boolOp op ns ih =>
    intro m h
    cases m with
    | boolOp op' ms =>
      simp only [Node.shape, Shape.boolOp.injEq, shapeAll_eq] at h
      obtain ⟨rfl, hshapes⟩ := h
      have hparts : ns.map (fun n => "(" ++ n.compile.1 ++ ")") = ms.map (fun n => "(" ++ n.compile.1 ++ ")") := by
        -- the lists have one shape, child by child
        induction ns generalizing ms with
        | nil =>
          cases ms with
          | nil => rfl
          | cons m ms => cases hshapes
        | cons n ns ihn =>
          cases ms with
          | nil => cases hshapes
          | cons m ms =>
            simp only [List.map_cons, List.cons.injEq] at hshapes ⊢
            exact ⟨by rw [ih n List.mem_cons_self m hshapes.1],
              ihn (fun n' hn => ih n' (List.mem_cons_of_mem _ hn)) ms hshapes.2⟩
      rw [Node.compile, Node.compile, compileAll_eq, compileAll_eq, hparts]
    | _ => cases h

/-! ## The search compiler -/

theorem SearchInput.compile_ok {b : Builtins F} {input : SearchInput} {q : CompiledQuery F}
    (h : input.compile b = .ok q) : ∃ t text, input.tree b = .ok t ∧ q = CompiledQuery.ofTree text t := by
  unfold SearchInput.compile at h
  cases ht : input.tree b with
  | error e =>
    rw [ht] at h
    cases h
  | ok t =>
    rw [ht] at h
    cases h
    exact ⟨t, _, rfl, rfl⟩

/-- What the compiler accepts is spelled from the vocabulary, with one placeholder for each
parameter and in their order, and depends on the values by their number only. -/
theorem injection_free (b : Builtins F) :
    (∀ input q, SearchInput.compile b input = .ok q → ∃ pieces : List (Piece F),
      q.sql = Piece.sql pieces ∧ q.params = Piece.params pieces ∧ (∀ s, Piece.lit s ∈ pieces → s ∈ vocabulary) ∧
        q.sql.toList.count '?' = q.params.length) ∧
    (∀ input input' q q' t t', SearchInput.compile b input = .ok q → SearchInput.compile b input' = .ok q' →
      input.tree b = .ok t → input'.tree b = .ok t' → t.map Node.shape = t'.map Node.shape → q.sql = q'.sql) := by
  constructor
  · intro input q h
    obtain ⟨t, text, -, rfl⟩ := SearchInput.compile_ok h
    cases t with
    | none => exact ⟨[], rfl, rfl, by simp, rfl⟩
    | some n =>
      have hn := compile_pieces n
      have hspelled := pieces_spelled n
      refine ⟨n.pieces, congrArg Prod.fst hn, congrArg Prod.snd hn, hspelled, ?_⟩
      simp only [CompiledQuery.ofTree, hn]
      exact count_placeholders hspelled
  · intro input input' q q' t t' h h' ht ht' hshape
    obtain ⟨u, text, hu, rfl⟩ := SearchInput.compile_ok h
    obtain ⟨u', text', hu', rfl⟩ := SearchInput.compile_ok h'
    rw [ht] at hu
    rw [ht'] at hu'
    cases hu
    cases hu'
    cases t with
    | none =>
      cases t' with
      | none => rfl
      | some n' => cases hshape
    | some n =>
      cases t' with
      | none => cases hshape
      | some n' => exact sql_of_shape n n' (Option.some.inj hshape)

/-- Nothing but text columns is asked of these. -/
def textBuiltins : Builtins Unit where
  case := asciiCase
  toInt _ := none
  toFloat _ := none
  parseTimestamp _ := .ok none

/-- Two filters on the level. -/
theorem injection_free_levels :
    let filter (level : String) : SearchInput := .filters [(Text.ofString "level", .scalar (Text.ofString level))]
    let compiled (level : String) : CompiledQuery Unit :=
      { sql := "level = ?", params := [some (.text (Text.ofString level))], text := [] }
    (∃ pieces : List (Piece Unit), (compiled "ERROR").sql = Piece.sql pieces ∧
      (compiled "ERROR").params = Piece.params pieces ∧ (∀ s, Piece.lit s ∈ pieces → s ∈ vocabulary) ∧
        (compiled "ERROR").sql.toList.count '?' = (compiled "ERROR").params.length) ∧
    (SearchInput.compile textBuiltins (filter "ERROR") = .ok (compiled "ERROR") ∧
      (compiled "ERROR").sql = (compiled "WARN").sql) :=
  ⟨(injection_free textBuiltins).1 (.filters [(Text.ofString "level", .scalar (Text.ofString "ERROR"))]) _ rfl, rfl,
    (injection_free textBuiltins).2 (.filters [(Text.ofString "level", .scalar (Text.ofString "ERROR"))])
      (.filters [(Text.ofString "level", .scalar (Text.ofString "WARN"))]) _ _ _ _ rfl rfl rfl rfl rfl⟩

end LogAnalytics.Search
