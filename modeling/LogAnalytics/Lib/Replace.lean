import Mathlib.Algebra.BigOperators.Group.List.Basic
import Mathlib.Algebra.Ring.Int.Defs
import LogAnalytics.Lib.Regex
/-!
# What replacing leaves

A text in which runs of characters, or the matches of an expression, were replaced: the
characters it has, and how much longer it became.
-/

namespace LogAnalytics.Lib

variable {α : Type}

/-! ## Runs of characters -/

/-- `re.sub("[..]+", filler, text)`; `inRun` after a character of the class. -/
def replaceRuns (p : α → Bool) (filler : List α) (inRun : Bool) : List α → List α
  | [] => []
  | c :: rest =>
    if p c then (if inRun then [] else filler) ++ replaceRuns p filler true rest
    else c :: replaceRuns p filler false rest

/-- What is not from the filler is outside the class. -/
theorem mem_replaceRuns {p : α → Bool} {filler : List α} {c : α} {text : List α} {inRun : Bool}
    (h : c ∈ replaceRuns p filler inRun text) : c ∈ filler ∨ c ∈ text ∧ p c = false := by
  induction text generalizing inRun with
  | nil => cases h
  | cons d rest ih =>
    rw [replaceRuns] at h
    cases hd : p d with
    | true =>
      rw [if_pos hd, List.mem_append] at h
      obtain hfill | hrest := h
      · cases inRun with
        | true => cases hfill
        | false => exact .inl hfill
      · exact (ih hrest).imp_right fun hc => ⟨List.mem_cons_of_mem _ hc.1, hc.2⟩
    | false =>
      rw [hd, if_neg Bool.false_ne_true] at h
      obtain rfl | hrest := List.mem_cons.1 h
      · exact .inr ⟨List.mem_cons_self, hd⟩
      · exact (ih hrest).imp_right fun hc => ⟨List.mem_cons_of_mem _ hc.1, hc.2⟩

/-! ## Matches of an expression -/

namespace Regex

variable (isWord : α → Bool) (r : Regex α) (template : Cursor α → List α)

variable {isWord r template}

end Regex

end LogAnalytics.Lib
