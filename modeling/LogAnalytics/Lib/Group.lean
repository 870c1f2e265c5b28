import Mathlib.Algebra.Order.Group.Multiset
/-!
# Chunks and groups

A list cut into chunks of a bounded length, and a list sorted into buckets by a key, in the
order in which the keys first appear. Both lose nothing and invent nothing.
-/

namespace LogAnalytics.Lib

variable {K E : Type}

/-- What a list of keyed buckets holds. -/
def contents (g : List (K × List E)) : Multiset E := (g.map fun b => (b.2 : Multiset E)).sum

@[simp] theorem contents_nil : contents ([] : List (K × List E)) = 0 := rfl

@[simp] theorem contents_cons (b : K × List E) (g : List (K × List E)) :
    contents (b :: g) = (b.2 : Multiset E) + contents g := by
  simp [contents]

theorem contents_append (g g' : List (K × List E)) : contents (g ++ g') = contents g + contents g' := by
  simp [contents]

section
variable [DecidableEq K]

/-- Append to the bucket of the key, opening it at the end when there is none. -/
def addTo (k : K) (x : E) : List (K × List E) → List (K × List E)
  | [] => [(k, [x])]
  | (k', xs) :: rest => if k' = k then (k', xs ++ [x]) :: rest else (k', xs) :: addTo k x rest

def groupBy (key : E → K) (xs : List E) : List (K × List E) := xs.foldl (fun g x => addTo (key x) x g) []

theorem contents_addTo (k : K) (x : E) (g : List (K × List E)) : contents (addTo k x g) = contents g + {x} := by
  induction g with
  | nil => simp [addTo]
  | cons b g ih =>
    obtain ⟨k', xs⟩ := b
    rw [addTo]
    split
    · rw [contents_cons, contents_cons, ← Multiset.coe_add, Multiset.coe_singleton]
      exact add_right_comm _ _ _
    · simp only [contents_cons, ih, add_assoc]

theorem nonempty_addTo {k : K} {x : E} {g : List (K × List E)} (h : ∀ b ∈ g, b.2 ≠ []) :
    ∀ b ∈ addTo k x g, b.2 ≠ [] := by
  induction g with
  | nil => simp [addTo]
  | cons b g ih =>
    obtain ⟨k', xs⟩ := b
    rw [List.forall_mem_cons] at h
    rw [addTo]
    split
    · rw [List.forall_mem_cons]
      exact ⟨by simp, h.2⟩
    · rw [List.forall_mem_cons]
      exact ⟨h.1, ih h.2⟩

theorem keyed_addTo {key : E → K} {x : E} {g : List (K × List E)} (h : ∀ b ∈ g, ∀ e ∈ b.2, key e = b.1) :
    ∀ b ∈ addTo (key x) x g, ∀ e ∈ b.2, key e = b.1 := by
  induction g with
  | nil => simp [addTo]
  | cons b g ih =>
    obtain ⟨k', xs⟩ := b
    rw [List.forall_mem_cons] at h
    rw [addTo]
    split
    · next hk =>
      rw [List.forall_mem_cons]
      refine ⟨fun e he => ?_, h.2⟩
      rcases List.mem_append.1 he with he | he
      · exact h.1 e he
      · rw [List.mem_singleton.1 he, hk]
    · rw [List.forall_mem_cons]
      exact ⟨h.1, ih h.2⟩

theorem groupBy_foldl (key : E → K) (xs : List E) : ∀ g : List (K × List E),
    contents (xs.foldl (fun g x => addTo (key x) x g) g) = contents g + (xs : Multiset E) := by
  induction xs with
  | nil => intro g; simp
  | cons x xs ih =>
    intro g
    rw [List.foldl_cons, ih, contents_addTo, add_assoc, ← Multiset.cons_coe, Multiset.singleton_add]

/-- The buckets hold the list. -/
theorem contents_groupBy (key : E → K) (xs : List E) : contents (groupBy key xs) = xs := by
  rw [groupBy, groupBy_foldl, contents_nil, zero_add]

/-- What is done to every element of every bucket is done to the list, in another order. -/
theorem groupBy_map_perm {F : Type} (key : E → K) (xs : List E) (f : E → F) :
    ((groupBy key xs).flatMap fun b => b.2.map f).Perm (xs.map f) := by
  have hcontents : ∀ g : List (K × List E), contents g = (g.flatMap Prod.snd : List E) := by
    intro g
    induction g with
    | nil => rfl
    | cons b g ih => rw [contents_cons, ih, List.flatMap_cons, Multiset.coe_add]
  have hperm : ((groupBy key xs).flatMap Prod.snd).Perm xs :=
    Multiset.coe_eq_coe.1 ((hcontents _).symm.trans (contents_groupBy key xs))
  rw [← List.map_flatMap]
  exact hperm.map f

/-- Every bucket holds something. -/
theorem groupBy_nonempty (key : E → K) (xs : List E) : ∀ b ∈ groupBy key xs, b.2 ≠ [] := by
  have h : ∀ g : List (K × List E), (∀ b ∈ g, b.2 ≠ []) →
      ∀ b ∈ xs.foldl (fun g x => addTo (key x) x g) g, b.2 ≠ [] := by
    induction xs with
    | nil => intro g hg; exact hg
    | cons x xs ih => intro g hg; exact ih _ (nonempty_addTo hg)
  exact h [] (by simp)

/-- A bucket holds what has its key. -/
theorem groupBy_keyed (key : E → K) (xs : List E) : ∀ b ∈ groupBy key xs, ∀ e ∈ b.2, key e = b.1 := by
  have h : ∀ g : List (K × List E), (∀ b ∈ g, ∀ e ∈ b.2, key e = b.1) →
      ∀ b ∈ xs.foldl (fun g x => addTo (key x) x g) g, ∀ e ∈ b.2, key e = b.1 := by
    induction xs with
    | nil => intro g hg; exact hg
    | cons x xs ih => intro g hg; exact ih _ (keyed_addTo hg)
  exact h [] (by simp)

theorem keys_addTo (k : K) (x : E) (g : List (K × List E)) :
    (addTo k x g).map Prod.fst = if k ∈ g.map Prod.fst then g.map Prod.fst else g.map Prod.fst ++ [k] := by
  induction g with
  | nil => rfl
  | cons b g ih =>
    obtain ⟨k', xs⟩ := b
    rw [addTo]
    by_cases hk : k' = k
    · rw [if_pos hk, if_pos (by simp [hk])]
      rfl
    · have hne : k ≠ k' := fun h => hk h.symm
      rw [if_neg hk, List.map_cons, ih, List.map_cons]
      by_cases hmem : k ∈ g.map Prod.fst
      · rw [if_pos hmem, if_pos (List.mem_cons_of_mem _ hmem)]
      · rw [if_neg hmem, if_neg (fun h => (List.mem_cons.1 h).elim hne hmem)]
        rfl

/-- The bucket of the key has one element more, the others are as they were. -/
theorem mem_addTo {k : K} {x : E} {g : List (K × List E)} (hnodup : (g.map Prod.fst).Nodup) {b : K × List E}
    (h : b ∈ addTo k x g) : b.1 ≠ k ∧ b ∈ g ∨ b.1 = k ∧ ∃ xs, b.2 = xs ++ [x] ∧ ((k, xs) ∈ g ∨ k ∉ g.map Prod.fst ∧ xs = []) := by
  induction g with
  | nil =>
    rw [List.mem_singleton.1 h]
    exact .inr ⟨rfl, [], rfl, .inr ⟨List.not_mem_nil, rfl⟩⟩
  | cons c g ih =>
    obtain ⟨k', xs⟩ := c
    rw [List.map_cons, List.nodup_cons] at hnodup
    rw [addTo] at h
    by_cases hk : k' = k
    · rw [if_pos hk] at h
      subst hk
      rcases List.mem_cons.1 h with rfl | h
      · exact .inr ⟨rfl, xs, rfl, .inl List.mem_cons_self⟩
      · have hmem : b.1 ∈ g.map Prod.fst := List.mem_map_of_mem h
        exact .inl ⟨fun heq => hnodup.1 (heq ▸ hmem), List.mem_cons_of_mem _ h⟩
    · rw [if_neg hk] at h
      rcases List.mem_cons.1 h with rfl | h
      · exact .inl ⟨hk, List.mem_cons_self⟩
      · rcases ih hnodup.2 h with ⟨hne, hb⟩ | ⟨hkey, ys, hys, hold⟩
        · exact .inl ⟨hne, List.mem_cons_of_mem _ hb⟩
        · refine .inr ⟨hkey, ys, hys, ?_⟩
          rcases hold with hold | ⟨hnew, rfl⟩
          · exact .inl (List.mem_cons_of_mem _ hold)
          · refine .inr ⟨?_, rfl⟩
            rw [List.map_cons, List.mem_cons]
            exact fun h => h.elim (fun heq => hk heq.symm) hnew

/-- Each key that is there has one bucket: what has the key, in order. -/
def Grouped (key : E → K) (xs : List E) (g : List (K × List E)) : Prop :=
  (g.map Prod.fst).Nodup ∧ (∀ b ∈ g, b.2 = xs.filter (key · = b.1)) ∧ ∀ k, k ∈ g.map Prod.fst ↔ ∃ x ∈ xs, key x = k

theorem Grouped.addTo {key : E → K} {xs : List E} {g : List (K × List E)} (h : Grouped key xs g) (x : E) :
    Grouped key (xs ++ [x]) (addTo (key x) x g) := by
  obtain ⟨hnodup, hbuckets, hkeys⟩ := h
  refine ⟨?_, fun b hb => ?_, fun k => ?_⟩
  · rw [keys_addTo]
    split
    · exact hnodup
    · next hnew => exact List.nodup_append.2 ⟨hnodup, List.nodup_singleton _, fun a ha c hc heq =>
        hnew (List.mem_singleton.1 hc ▸ heq ▸ ha)⟩
  · rw [List.filter_append]
    rcases mem_addTo hnodup hb with ⟨hne, hold⟩ | ⟨hkey, ys, hys, hold⟩
    · rw [List.filter_cons_of_neg (by simpa using fun heq => hne heq.symm), List.filter_nil, List.append_nil]
      exact hbuckets b hold
    · rw [hys, List.filter_cons_of_pos (by simp [hkey]), List.filter_nil, hkey]
      rcases hold with hold | ⟨hnew, rfl⟩
      · exact congrArg (· ++ [x]) (hbuckets _ hold)
      · have hnone : xs.filter (key · = key x) = [] :=
          List.filter_eq_nil_iff.2 fun y hy heq => hnew ((hkeys _).2 ⟨y, hy, of_decide_eq_true heq⟩)
        rw [hnone]
  · have hmem : k ∈ (Lib.addTo (key x) x g).map Prod.fst ↔ k ∈ g.map Prod.fst ∨ k = key x := by
      rw [keys_addTo]
      split
      · next hold => exact ⟨.inl, fun h => h.elim id fun heq => heq ▸ hold⟩
      · rw [List.mem_append, List.mem_singleton]
    rw [hmem, hkeys]
    constructor
    · rintro (⟨y, hy, rfl⟩ | rfl)
      · exact ⟨y, List.mem_append_left _ hy, rfl⟩
      · exact ⟨x, by simp, rfl⟩
    · rintro ⟨y, hy, rfl⟩
      rcases List.mem_append.1 hy with hy | hy
      · exact .inl ⟨y, hy, rfl⟩
      · exact .inr (by rw [List.mem_singleton.1 hy])

theorem grouped_groupBy (key : E → K) (xs : List E) : Grouped key xs (groupBy key xs) := by
  have h : ∀ pre g, Grouped key pre g → Grouped key (pre ++ xs) (xs.foldl (fun g x => Lib.addTo (key x) x g) g) := by
    induction xs with
    | nil => exact fun pre g hg => by rwa [List.append_nil]
    | cons x xs ih =>
      intro pre g hg
      have hstep := ih _ _ (hg.addTo x)
      rwa [List.append_assoc] at hstep
  exact h [] [] ⟨List.nodup_nil, fun b hb => absurd hb List.not_mem_nil, fun k => by simp⟩

end

/-- Cut a list into chunks of `size`; `batch` is the chunk being filled. -/
def batchedFrom (size : Nat) : List E → List E → List (List E)
  | batch, [] => if batch = [] then [] else [batch]
  | batch, x :: xs =>
    if size ≤ (batch ++ [x]).length then (batch ++ [x]) :: batchedFrom size [] xs
    else batchedFrom size (batch ++ [x]) xs

def batched (size : Nat) (xs : List E) : List (List E) := batchedFrom size [] xs

theorem batchedFrom_flatten (size : Nat) (xs : List E) : ∀ batch, (batchedFrom size batch xs).flatten = batch ++ xs := by
  induction xs with
  | nil =>
    intro batch
    rw [batchedFrom]
    split
    · next h => simp [h]
    · simp
  | cons x xs ih =>
    intro batch
    rw [batchedFrom]
    split <;> simp [ih]

/-- The chunks are the list. -/
theorem batched_flatten (size : Nat) (xs : List E) : (batched size xs).flatten = xs :=
  batchedFrom_flatten size xs []

end LogAnalytics.Lib
