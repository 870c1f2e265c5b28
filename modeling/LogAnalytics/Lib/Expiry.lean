import Mathlib.Data.List.DropRight
/-!
# Queues that expire from the front

A queue that keeps its last `n` elements and lets the old ones at its front go. What it holds is
the end of what came in; it holds exactly what is not old when no old element is behind one that
is not.
-/

namespace LogAnalytics.Lib

variable {α : Type*} {p : α → Bool}

/-- All that is left is not old exactly when the old elements are in front. -/
theorem forall_dropWhile_iff {l : List α} : (∀ x ∈ l.dropWhile p, p x = false) ↔ l.Pairwise fun x y => p y = true → p x = true := by
  induction l with
  | nil => simp
  | cons x l ih =>
    rw [List.pairwise_cons]
    by_cases hx : p x = true
    · rw [List.dropWhile_cons_of_pos hx, ih]
      exact ⟨fun h => ⟨fun _ _ _ => hx, h⟩, fun h => h.2⟩
    · rw [List.dropWhile_cons_of_neg hx]
      constructor
      · intro h
        have hnone : ∀ y ∈ l, p y = true → False := fun y hy hpy => by
          rw [h y (List.mem_cons_of_mem _ hy)] at hpy
          cases hpy
        exact ⟨fun y hy hpy => (hnone y hy hpy).elim, List.pairwise_of_forall_mem_list fun y _ z hz hpz => (hnone z hz hpz).elim⟩
      · rintro ⟨hhead, -⟩ y hy
        rcases List.mem_cons.1 hy with rfl | hy
        · exact Bool.eq_false_iff.2 hx
        · exact Bool.eq_false_iff.2 fun hpy => hx (hhead y hy hpy)

theorem filter_dropWhile (l : List α) : (l.dropWhile p).filter (fun x => !p x) = l.filter fun x => !p x := by
  induction l with
  | nil => rfl
  | cons x l ih =>
    by_cases hx : p x = true
    · rw [List.dropWhile_cons_of_pos hx, ih, List.filter_cons_of_neg (by simpa using hx)]
    · rw [List.dropWhile_cons_of_neg hx]

/-- Of the elements that came in last, some let go and some held, the queue has exactly those that
are not old when none of the ones let go is, and the old ones among the others are in front. -/
theorem dropWhile_eq_filter_append_iff {gone held : List α} :
    held.dropWhile p = (gone ++ held).filter (fun x => !p x) ↔
      (∀ x ∈ gone, p x = true) ∧ held.Pairwise fun x y => p y = true → p x = true := by
  rw [← forall_dropWhile_iff, List.filter_append, ← filter_dropWhile held]
  constructor
  · intro h
    have hheld : ∀ x ∈ held.dropWhile p, p x = false := fun x hx => by
      rw [h, List.mem_append, List.mem_filter, List.mem_filter] at hx
      simpa using hx.elim (·.2) (·.2)
    have hself : (held.dropWhile p).filter (fun x => !p x) = held.dropWhile p :=
      List.filter_eq_self.2 fun x hx => by rw [hheld x hx]; rfl
    rw [hself, List.self_eq_append_left, List.filter_eq_nil_iff] at h
    exact ⟨fun x hx => by simpa using h x hx, hheld⟩
  · rintro ⟨hgone, hheld⟩
    have hself : (held.dropWhile p).filter (fun x => !p x) = held.dropWhile p :=
      List.filter_eq_self.2 fun x hx => by rw [hheld x hx]; rfl
    rw [hself, List.filter_eq_nil_iff.2 fun x hx => by simp [hgone x hx], List.nil_append]

/-! ## What a bounded queue holds -/

/-- The queue holds the end of the last `n` elements. -/
def HoldsEnd (n : ℕ) (came held : List α) : Prop := held <:+ came.rtake n

namespace HoldsEnd

variable {n : ℕ} {came held : List α}

theorem nil : HoldsEnd n ([] : List α) [] := List.nil_suffix

theorem bounded (h : HoldsEnd n came held) : held.length ≤ n := by
  have hlen := List.IsSuffix.length_le h
  rw [List.rtake, List.length_drop] at hlen
  omega

/-- A new element comes in, and the oldest one goes if there are too many. -/
theorem push (h : HoldsEnd n came held) (x : α) : HoldsEnd n (came ++ [x]) ((held ++ [x]).drop (held.length + 1 - n)) := by
  have hcame : held ++ [x] <:+ came ++ [x] := by
    obtain ⟨before, hbefore⟩ := h.trans (List.drop_suffix _ _)
    exact ⟨before, by rw [← hbefore, List.append_assoc]⟩
  refine List.suffix_of_suffix_length_le ((List.drop_suffix _ _).trans hcame) (List.drop_suffix _ _) ?_
  rw [List.length_drop, List.rtake, List.length_drop, List.length_append, List.length_append, List.length_singleton]
  have := h.bounded
  have hle := hcame.length_le
  rw [List.length_append, List.length_append, List.length_singleton] at hle
  omega

theorem dropWhile (h : HoldsEnd n came held) (p : α → Bool) : HoldsEnd n came (held.dropWhile p) :=
  (List.dropWhile_suffix p).trans h

end HoldsEnd

end LogAnalytics.Lib
