import Mathlib.Data.List.Dedup
import Mathlib.Data.List.DropRight
import Mathlib.Data.List.Perm.Subperm
/-!
# Keys in the order of their last use

The keys of a history, each where it was used last, are `h.dedup`: the least recently used comes
first. A bounded set that drops the least recently used of its keys is the end of that list.
-/

namespace LogAnalytics.Lib

variable {K : Type*} [DecidableEq K] {h a b : List K} {k : K} {n : Nat}

/-- One more use moves its key to the end. -/
theorem dedup_snoc [BEq K] [LawfulBEq K] (h : List K) (k : K) : (h ++ [k]).dedup = h.dedup.erase k ++ [k] := by
  induction h with
  | nil => simp
  | cons x h ih =>
    rw [List.cons_append, List.dedup_cons, List.dedup_cons, ih]
    by_cases hx : x ∈ h
    · rw [if_pos (List.mem_append_left _ hx), if_pos hx]
    · rw [if_neg hx]
      by_cases hxk : x = k
      · subst hxk
        rw [if_pos (by simp), List.erase_cons_head, List.erase_of_not_mem (by simpa using hx)]
      · rw [if_neg (by simp [hx, hxk]), List.erase_cons_tail (by simpa using hxk), List.cons_append]

/-- Behind a key stand the keys used since. -/
theorem dedup_split (hb : k ∉ b) : ∃ p, (a ++ k :: b).dedup = p ++ k :: b.dedup := by
  obtain ⟨p, hp⟩ := List.suffix_union_right a (k :: b).dedup
  refine ⟨p, ?_⟩
  rw [List.dedup_append, ← hp, List.dedup_cons_of_notMem hb]

omit [DecidableEq K] in
/-- The last use of a key. -/
theorem exists_last (hk : k ∈ h) : ∃ a b, h = a ++ k :: b ∧ k ∉ b := by
  obtain ⟨b, a, h', hb⟩ : ∃ b a, h.reverse = b ++ k :: a ∧ k ∉ b :=
    List.eq_append_cons_of_mem (List.mem_reverse.2 hk)
  refine ⟨a.reverse, b.reverse, ?_, by simpa using hb⟩
  have hrev := congrArg List.reverse h'
  simpa using hrev

/-! ## The last keys -/

omit [DecidableEq K] in
/-- A list is what is dropped and its last `n`, which are fewer only if nothing is dropped. -/
theorem exists_rtake (l : List K) (n : Nat) : ∃ p, l = p ++ l.rtake n ∧ (p = [] ∨ (l.rtake n).length = n) := by
  refine ⟨l.take (l.length - n), (List.take_append_drop _ l).symm, ?_⟩
  by_cases hn : n ≤ l.length
  · right
    rw [List.rtake, List.length_drop]
    omega
  · left
    rw [Nat.sub_eq_zero_of_le (by omega), List.take_zero]

omit [DecidableEq K] in
theorem rtake_append_right {p r : List K} (hr : p = [] ∨ r.length = n) (hle : r.length ≤ n) : (p ++ r).rtake n = r := by
  rcases hr with rfl | hr
  · rw [List.nil_append, List.rtake, Nat.sub_eq_zero_of_le hle, List.drop_zero]
  · rw [List.rtake, List.length_append, hr, Nat.add_sub_cancel, List.drop_left]

omit [DecidableEq K] in
theorem length_rtake_le (l : List K) (n : Nat) : (l.rtake n).length ≤ n := by
  rw [List.rtake, List.length_drop]
  omega

/-- A key among the last `n` is used again: it moves to the end. -/
theorem rtake_again {l : List K} (hl : l.Nodup) (hk : k ∈ l.rtake n) :
    (l.erase k ++ [k]).rtake n = (l.rtake n).erase k ++ [k] := by
  obtain ⟨p, hp, hlen⟩ := exists_rtake l n
  have hkp : k ∉ p := by
    rw [hp] at hl
    exact fun hkp => (List.disjoint_of_nodup_append hl) hkp hk
  have hsame := List.length_erase_add_one hk
  conv_lhs => rw [hp, List.erase_append_right _ hkp, List.append_assoc]
  have hmoved : ((l.rtake n).erase k ++ [k]).length = (l.rtake n).length := by
    rw [List.length_append, List.length_singleton, hsame]
  rw [rtake_append_right (by rwa [hmoved]) (by rw [hmoved]; exact length_rtake_le l n)]

/-- Another key is used: it comes to the end, and the first of `n` leaves. -/
theorem rtake_other {l : List K} (hn : 1 ≤ n) (hk : k ∉ l.rtake n) :
    (l.erase k ++ [k]).rtake n = (l.rtake n ++ [k]).drop ((l.rtake n).length + 1 - n) := by
  obtain ⟨p, hp, hlen⟩ := exists_rtake l n
  have herase : l.erase k = p.erase k ++ l.rtake n := by
    conv_lhs => rw [hp]
    by_cases hkp : k ∈ p
    · exact List.erase_append_left _ hkp
    · rw [List.erase_append_right _ hkp, List.erase_of_not_mem hk, List.erase_of_not_mem hkp]
  have hle := length_rtake_le l n
  rw [herase]
  by_cases hfull : (l.rtake n).length = n
  · rw [hfull, Nat.add_sub_cancel_left, List.drop_one]
    obtain ⟨x, r, hr⟩ : ∃ x r, l.rtake n = x :: r := by
      refine List.exists_cons_of_ne_nil fun hnil => ?_
      rw [hnil, List.length_nil] at hfull
      omega
    rw [hr, List.length_cons] at hfull
    have hsplit : p.erase k ++ x :: r ++ [k] = (p.erase k ++ [x]) ++ (r ++ [k]) := by simp
    rw [hr, hsplit, rtake_append_right (.inr (by simpa using hfull)) (by simp [hfull])]
    rfl
  · have hnil := hlen.resolve_right hfull
    rw [hnil, List.erase_nil, List.nil_append, Nat.sub_eq_zero_of_le (by omega), List.drop_zero]
    have hroom : (l.rtake n ++ [k]).length ≤ n := by
      rw [List.length_append, List.length_singleton]
      omega
    exact rtake_append_right (p := []) (.inl rfl) hroom

/-- Of the keys of a history the last `n` are those since whose last use fewer than `n` others
were used. -/
theorem mem_rtake_dedup : k ∈ h.dedup.rtake n ↔ ∃ a b, h = a ++ k :: b ∧ k ∉ b ∧ b.dedup.length < n := by
  have hsplit : ∀ {a b : List K}, k ∉ b → (k ∈ (a ++ k :: b).dedup.rtake n ↔ b.dedup.length < n) := by
    intro a b hb
    obtain ⟨p, hp⟩ := dedup_split (a := a) hb
    have hnodup := List.nodup_dedup (a ++ k :: b)
    rw [hp] at hnodup ⊢
    have hlen : (p ++ k :: b.dedup).length = p.length + (b.dedup.length + 1) := by
      rw [List.length_append, List.length_cons]
    rw [List.rtake, hlen]
    constructor
    · intro hk
      by_contra hlt
      have hskip : p.length + 1 ≤ p.length + (b.dedup.length + 1) - n := by omega
      have hdropped : k ∈ (p ++ k :: b.dedup).drop (p.length + 1) := (List.drop_suffix_drop_left _ hskip).subset hk
      rw [List.drop_append, List.drop_of_length_le (by omega), Nat.add_sub_cancel_left] at hdropped
      exact hb (List.mem_dedup.1 (by simpa using hdropped))
    · intro hlt
      rw [List.drop_append_of_le_length (by omega)]
      simp
  constructor
  · intro hk
    have hmem : k ∈ h := List.mem_dedup.1 (List.mem_of_mem_drop hk)
    obtain ⟨a, b, rfl, hb⟩ := exists_last hmem
    exact ⟨a, b, rfl, hb, (hsplit hb).1 hk⟩
  · rintro ⟨a, b, rfl, hb, hlen⟩
    exact (hsplit hb).2 hlen

/-- A use brings no key among the last but its own. -/
theorem mem_rtake_snoc {x : K} (hk : k ∈ (h ++ [x]).dedup.rtake n) : k = x ∨ k ∈ h.dedup.rtake n := by
  obtain ⟨a, b, hsplit, hb, hlen⟩ := mem_rtake_dedup.1 hk
  rcases List.eq_nil_or_concat b with rfl | ⟨b, y, rfl⟩
  · left
    exact (List.append_inj' hsplit rfl).2 |> fun heq => (List.singleton_inj.1 heq).symm
  · right
    rw [List.concat_eq_append] at hsplit hb hlen
    rw [← List.cons_append, ← List.append_assoc] at hsplit
    refine mem_rtake_dedup.2 ⟨a, b, (List.append_inj' hsplit rfl).1, fun hmem => hb (List.mem_append_left _ hmem), ?_⟩
    have hsub : b.dedup ⊆ (b ++ [y]).dedup := fun z hz => by
      rw [List.mem_dedup] at hz ⊢
      exact List.mem_append_left _ hz
    exact (b.nodup_dedup.subperm hsub).length_le.trans_lt hlen

omit [DecidableEq K] in
/-- What is among the last of a list is among the last of what is left of it. -/
theorem mem_rtake_sublist {l l' : List K} (hsub : l.Sublist l') (hl : l'.Nodup) (hk : k ∈ l) (hlast : k ∈ l'.rtake n) :
    k ∈ l.rtake n := by
  obtain ⟨p, hp, -⟩ := exists_rtake l' n
  rw [hp] at hsub hl
  obtain ⟨l₁, l₂, rfl, h₁, h₂⟩ := List.sublist_append_iff.1 hsub
  have hk₂ : k ∈ l₂ := (List.mem_append.1 hk).resolve_left fun hk₁ =>
    List.disjoint_of_nodup_append hl (h₁.subset hk₁) hlast
  have hlen : l₂.length ≤ n := h₂.length_le.trans (length_rtake_le l' n)
  rw [List.rtake, List.drop_append_of_le_length (by rw [List.length_append]; omega)]
  exact List.mem_append_right _ hk₂

end LogAnalytics.Lib
