import Mathlib.Data.List.Infix
/-!
# LIKE patterns

The patterns of SQL's `LIKE` over any characters: literals, one character, any characters, and
an escape character that makes the next one literal. `same` is the comparison of two
characters, exact or without regard to case. A pattern of literals between two wildcards finds
a text within another; one with wildcards between literals is a glob.
-/

namespace LogAnalytics.Lib

inductive LikeItem (α : Type) where
  | lit (c : α)
  | one
  | any
  deriving DecidableEq

namespace Like

variable {α : Type}

def matchItems (same : α → α → Bool) : List (LikeItem α) → List α → Bool
  | [], text => text.isEmpty
  | .lit _ :: _, [] => false
  | .lit c :: items, x :: text => same c x && matchItems same items text
  | .one :: _, [] => false
  | .one :: items, _ :: text => matchItems same items text
  | .any :: items, text => text.tails.any (matchItems same items)

theorem matchItems_any {same : α → α → Bool} {items : List (LikeItem α)} {text : List α} :
    matchItems same (.any :: items) text = true ↔ ∃ rest, rest <:+ text ∧ matchItems same items rest = true := by
  rw [matchItems, List.any_eq_true]
  simp only [List.mem_tails]

/-! ## Texts within texts -/

section Fold

variable {β : Type} [DecidableEq β] {fold : α → β}

theorem matchItems_starts (value : List α) : ∀ text,
    matchItems (fun c x => fold c = fold x) (value.map .lit ++ [.any]) text = true ↔ value.map fold <+: text.map fold := by
  induction value with
  | nil =>
    intro text
    rw [List.map_nil, List.nil_append, matchItems_any]
    exact iff_of_true ⟨[], List.nil_suffix, rfl⟩ List.nil_prefix
  | cons c value ih =>
    intro text
    cases text with
    | nil => simp [matchItems]
    | cons x text =>
      rw [List.map_cons, List.cons_append, matchItems, Bool.and_eq_true, ih, List.map_cons, List.map_cons,
        List.cons_prefix_cons, decide_eq_true_eq]

/-- Between two wildcards: the value stands in the text. -/
theorem matchItems_within (value text : List α) :
    matchItems (fun c x => fold c = fold x) (.any :: (value.map .lit ++ [.any])) text = true ↔
      value.map fold <:+: text.map fold := by
  rw [matchItems_any, List.infix_iff_prefix_suffix]
  constructor
  · rintro ⟨rest, hsuffix, hrest⟩
    exact ⟨rest.map fold, (matchItems_starts value rest).1 hrest, hsuffix.map fold⟩
  · rintro ⟨folded, hprefix, skipped, hfolded⟩
    obtain ⟨front, rest, rfl, -, rfl⟩ := List.append_eq_map_iff.1 hfolded
    exact ⟨rest, List.suffix_append front rest, (matchItems_starts value rest).2 hprefix⟩

end Fold

/-! ## Patterns as they are written -/

variable [DecidableEq α]

/-- A pattern character that is not escaped. -/
def plain (any one c : α) : LikeItem α := if c = any then .any else if c = one then .one else .lit c

def parse (escape any one : α) : List α → List (LikeItem α)
  | [] => []
  | [c] => [plain any one c]
  | c :: d :: pattern =>
    if c = escape then .lit d :: parse escape any one pattern
    else plain any one c :: parse escape any one (d :: pattern)

theorem parse_escaped (escape any one c : α) (pattern : List α) :
    parse escape any one (escape :: c :: pattern) = .lit c :: parse escape any one pattern := by
  rw [parse, if_pos rfl]

theorem parse_plain {escape any one c : α} (h : c ≠ escape) (pattern : List α) :
    parse escape any one (c :: pattern) = plain any one c :: parse escape any one pattern := by
  cases pattern with
  | nil => rfl
  | cons d pattern => rw [parse, if_neg h]

variable {same : α → α → Bool}

/-- A text matches itself, whichever of its characters are wildcards. -/
theorem matchItems_self (hsame : ∀ c, same c c = true) {wild : α} (text : List α) :
    matchItems same (text.map fun c => if c = wild then .any else .lit c) text = true := by
  induction text with
  | nil => rfl
  | cons c text ih =>
    by_cases hc : c = wild
    · simp only [List.map_cons, if_pos hc, matchItems]
      rw [List.any_eq_true]
      exact ⟨text, (List.mem_tails _ _).2 (List.suffix_cons c text), ih⟩
    · simp only [List.map_cons, if_neg hc]
      rw [matchItems, hsame, ih]
      rfl

/-- It still does when its wildcards are dropped. -/
theorem matchItems_dropped (hsame : ∀ c, same c c = true) {wild : α} (text : List α) :
    matchItems same (text.map fun c => if c = wild then .any else .lit c) (text.filter (· ≠ wild)) = true := by
  induction text with
  | nil => rfl
  | cons c text ih =>
    by_cases hc : c = wild
    · simp only [List.map_cons, if_pos hc, matchItems]
      rw [List.filter_cons_of_neg (by simpa using hc), List.any_eq_true]
      exact ⟨_, (List.mem_tails _ _).2 (List.suffix_refl _), ih⟩
    · simp only [List.map_cons, if_neg hc]
      rw [List.filter_cons_of_pos (by simpa using hc), matchItems, hsame, ih]
      rfl

/-! ## Globs -/

/-- A text matches a pattern in which `wild` is any text and every other character is literal. -/
inductive Glob (same : α → α → Bool) (wild : α) : (pattern text : List α) → Prop
  | nil : Glob same wild [] []
  | lit {c x : α} {pattern text : List α} (literal : c ≠ wild) (agrees : same c x = true)
      (rest : Glob same wild pattern text) : Glob same wild (c :: pattern) (x :: text)
  | wild (skipped : List α) {pattern text : List α} (rest : Glob same wild pattern text) :
      Glob same wild (wild :: pattern) (skipped ++ text)

theorem matchItems_glob {wild : α} (pattern : List α) : ∀ text,
    matchItems same (pattern.map fun c => if c = wild then .any else .lit c) text = true ↔
      Glob same wild pattern text := by
  induction pattern with
  | nil =>
    intro text
    rw [List.map_nil, matchItems, List.isEmpty_iff]
    constructor
    · rintro rfl
      exact .nil
    · rintro ⟨⟩
      rfl
  | cons c pattern ih =>
    intro text
    by_cases hc : c = wild
    · subst hc
      rw [List.map_cons, if_pos rfl, matchItems_any]
      constructor
      · rintro ⟨rest, ⟨skipped, rfl⟩, hrest⟩
        exact .wild skipped ((ih rest).1 hrest)
      · rintro (_ | ⟨literal⟩ | @⟨skipped, _, rest, hrest⟩)
        · exact absurd rfl literal
        · exact ⟨rest, List.suffix_append skipped rest, (ih rest).2 hrest⟩
    · rw [List.map_cons, if_neg hc]
      cases text with
      | nil =>
        refine ⟨fun h => absurd h (by simp [matchItems]), fun h => ?_⟩
        generalize htext : ([] : List α) = text at h
        cases h with
        | lit => cases htext
        | wild => exact absurd rfl hc
      | cons x text =>
        rw [matchItems, Bool.and_eq_true, ih text]
        constructor
        · rintro ⟨agrees, hrest⟩
          exact .lit hc agrees hrest
        · intro h
          generalize htext : x :: text = whole at h
          cases h with
          | lit literal agrees rest =>
            cases htext
            exact ⟨agrees, rest⟩
          | wild => exact absurd rfl hc

end Like

end LogAnalytics.Lib
