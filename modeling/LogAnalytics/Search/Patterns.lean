import LogAnalytics.Analytics.Scope
/-!
# What a pattern matches

The patterns the search language binds to `ILIKE`, read back by the matcher: without a `*` a
value stands somewhere in the text, with one it is a glob. Free text has no wildcards.
-/
open LogAnalytics.Lib

namespace LogAnalytics

open Search

variable {fold : CodePoint → CodePoint}

/-! ## Escaping -/

/-- `value.replace(c, "\\" + c)` -/
def escapeChar (c : CodePoint) (value : Text) : Text := value.flatMap fun d => if d = c then [chr '\\', d] else [d]

/-- The three replacements of `_escape_like`, in their order, are one pass. -/
theorem escapeLike_replaced (value : Text) :
    escapeLike value = escapeChar (chr '_') (escapeChar (chr '%') (escapeChar (chr '\\') value)) := by
  have hdistinct : chr '\\' ≠ chr '%' ∧ chr '\\' ≠ chr '_' ∧ chr '%' ≠ chr '_' := by decide
  obtain ⟨hpercent, hunderscore, hother⟩ := hdistinct
  simp only [escapeLike, escapeChar, List.flatMap_assoc]
  congr 1
  funext c
  -- Only the first replacement sees a backslash: the later ones meet those it wrote.
  by_cases hc : c = chr '\\'
  · simp [hc, hpercent, hunderscore]
  · by_cases hc' : c = chr '%'
    · simp [hc', hpercent.symm, hunderscore, hother]
    · simp [hc, hc']

/-- An escaped value is read as its characters. -/
theorem parse_escapeLike (value rest : Text) :
    Like.parse (chr '\\') (chr '%') (chr '_') (escapeLike value ++ rest) =
      value.map .lit ++ Like.parse (chr '\\') (chr '%') (chr '_') rest := by
  induction value with
  | nil => rfl
  | cons c value ih =>
    rw [escapeLike, List.flatMap_cons, ← escapeLike]
    by_cases hc : c = chr '\\' ∨ c = chr '%' ∨ c = chr '_'
    · rw [if_pos hc, List.append_assoc, List.cons_append, List.cons_append, List.nil_append, Like.parse_escaped, ih,
        List.map_cons, List.cons_append]
    · rw [if_neg hc, List.append_assoc, List.cons_append, List.nil_append]
      simp only [not_or] at hc
      rw [Like.parse_plain hc.1, Like.plain, if_neg hc.2.1, if_neg hc.2.2, ih, List.map_cons, List.cons_append]

/-- A pattern with a `*` reads as the text with its stars for wildcards. -/
theorem parse_pattern {text : Text} (h : chr '*' ∈ text) :
    Like.parse (chr '\\') (chr '%') (chr '_') (toLikePattern text) =
      text.map fun c => if c = chr '*' then .any else .lit c := by
  rw [toLikePattern, if_pos h]
  clear h
  have hstar : chr '*' ≠ chr '\\' ∧ chr '*' ≠ chr '%' ∧ chr '*' ≠ chr '_' ∧ chr '%' ≠ chr '\\' := by decide
  induction text with
  | nil => rfl
  | cons c text ih =>
    rw [escapeLike, List.flatMap_cons, ← escapeLike, List.map_append]
    by_cases hescape : c = chr '\\' ∨ c = chr '%' ∨ c = chr '_'
    · have hc : c ≠ chr '*' := by
        rintro rfl
        rcases hescape with h | h | h
        · exact hstar.1 h
        · exact hstar.2.1 h
        · exact hstar.2.2.1 h
      rw [if_pos hescape, List.map_cons, List.map_cons, List.map_nil, if_neg hstar.1.symm, if_neg hc, List.cons_append,
        List.cons_append, List.nil_append, Like.parse_escaped, ih, List.map_cons, if_neg hc]
    · rw [if_neg hescape, List.map_cons, List.map_nil, List.cons_append, List.nil_append, List.map_cons]
      simp only [not_or] at hescape
      by_cases hc : c = chr '*'
      · rw [if_pos hc, if_pos hc, Like.parse_plain hstar.2.2.2, ih, Like.plain, if_pos rfl]
      · rw [if_neg hc, if_neg hc, Like.parse_plain hescape.1, ih, Like.plain, if_neg hescape.2.1, if_neg hescape.2.2]

/-! ## Matching -/

/-- The pattern of free text, and of a value without a `*`. -/
theorem ilike_contains (value text : Text) :
    ilike fold text (chr '%' :: escapeLike value ++ [chr '%']) = true ↔ value.map fold <:+: text.map fold := by
  have hpercent : chr '%' ≠ chr '\\' := by decide
  have hany : Like.plain (chr '%') (chr '_') (chr '%') = .any := if_pos rfl
  rw [ilike, List.cons_append, Like.parse_plain hpercent, parse_escapeLike, Like.parse, hany]
  exact Like.matchItems_within value text

theorem ilike_glob {value : Text} (h : chr '*' ∈ value) (text : Text) :
    ilike fold text (toLikePattern value) = true ↔ Like.Glob (fun c x => fold c = fold x) (chr '*') value text := by
  rw [ilike, parse_pattern h]
  exact Like.matchItems_glob value text

/-- A pattern matches what was typed: a value with a `*` is a glob, any other one and free text
stand somewhere in the text. -/
theorem pattern_matches (F : Type) (fold : CodePoint → CodePoint) (value text : Text) :
    (ilike fold text (toLikePattern value) = true ↔
      if chr '*' ∈ value then Like.Glob (fun c x => fold c = fold x) (chr '*') value text
      else value.map fold <:+: text.map fold) ∧
    ∀ p ∈ (Node.freeText value : Node F).compile.2, ∃ pattern, p = some (.text pattern) ∧
      (ilike fold text pattern = true ↔ value.map fold <:+: text.map fold) := by
  refine ⟨?_, ?_⟩
  · by_cases h : chr '*' ∈ value
    · rw [if_pos h]
      exact ilike_glob h text
    · rw [if_neg h, toLikePattern, if_neg h]
      exact ilike_contains value text
  · intro p hp
    have hpattern : p = some (.text (chr '%' :: escapeLike value ++ [chr '%'])) := by
      simpa only [Node.compile, List.mem_cons, List.not_mem_nil, or_false, or_self] using hp
    exact ⟨_, hpattern, ilike_contains value text⟩

example : ilike Text.asciiLower (Text.ofString "50% OFF") (toLikePattern (Text.ofString "0%_*")) = false := by decide

end LogAnalytics
