import Mathlib.Data.List.Count
import Mathlib.Data.List.Sort
import Mathlib.Data.List.Dedup
import Mathlib.Algebra.BigOperators.Group.List.Lemmas
import Mathlib.Algebra.Order.BigOperators.Group.List
import Mathlib.Algebra.Order.Ring.Nat
import LogAnalytics.Lib.Assoc
import LogAnalytics.Lib.Counter
/-!
# Counting by key

How often each key of a list occurs, the least key first. The counts of a list add up to its
length.
-/

namespace LogAnalytics.Lib

variable {K : Type*} [LinearOrder K] {keys : List K} {k : K}

def countBy (keys : List K) : List (K × ℕ) := (keys.dedup.insertionSort (· ≤ ·)).map fun k => (k, keys.count k)

theorem keys_countBy (keys : List K) : (countBy keys).map Prod.fst = keys.dedup.insertionSort (· ≤ ·) := by
  rw [countBy, List.map_map]
  exact List.map_id _

theorem mem_keys_countBy : k ∈ (countBy keys).map Prod.fst ↔ k ∈ keys := by
  rw [keys_countBy, List.mem_insertionSort, List.mem_dedup]

theorem nodup_keys_countBy (keys : List K) : ((countBy keys).map Prod.fst).Nodup := by
  rw [keys_countBy]
  exact (List.perm_insertionSort _ _).nodup_iff.2 keys.nodup_dedup

theorem length_countBy (keys : List K) : (countBy keys).length = keys.dedup.length := by
  rw [countBy, List.length_map, List.length_insertionSort]

/-- The count of a key, none where it does not occur. -/
theorem lookup_countBy (keys : List K) (k : K) : ((countBy keys).lookup k).getD 0 = keys.count k := by
  cases hfound : (countBy keys).lookup k with
  | none =>
    have hnew : k ∉ keys := fun hk => lookup_none.1 hfound (mem_keys_countBy.2 hk)
    rw [List.count_eq_zero_of_not_mem hnew]
    rfl
  | some n =>
    obtain ⟨k', -, heq⟩ := List.mem_map.1 (mem_of_lookup hfound)
    cases heq
    rfl

theorem sum_countBy (keys : List K) : ((countBy keys).map Prod.snd).sum = keys.length := by
  have hperm : ((countBy keys).map Prod.snd).Perm (keys.dedup.map fun k => keys.count k) := by
    rw [countBy, List.map_map]
    exact (List.perm_insertionSort _ _).map _
  rw [hperm.sum_eq, List.sum_map_count_dedup_eq_length]

/-- Renamed one to one, the keys are counted as before. -/
theorem countBy_map {K' : Type*} [LinearOrder K'] {f : K → K'} (hf : Function.Injective f) (keys : List K) :
    ((countBy keys).map fun e => (f e.1, e.2)).Perm (countBy (keys.map f)) := by
  have hleft : ((countBy keys).map fun e => (f e.1, e.2)).Perm (keys.dedup.map fun k => (f k, keys.count k)) := by
    rw [countBy, List.map_map]
    exact (List.perm_insertionSort _ _).map _
  have hright : (countBy (keys.map f)).Perm (keys.dedup.map fun k => (f k, keys.count k)) := by
    refine ((List.perm_insertionSort _ _).map _).trans (List.Perm.of_eq ?_)
    rw [List.dedup_map_of_injective hf, List.map_map]
    exact List.map_congr_left fun k _ => by rw [Function.comp_apply, List.count_map_of_injective _ _ hf]
  exact hleft.trans hright.symm

/-! ## Tables of counts -/

/-- Read out for each of its keys once, a table gives all it holds. -/
theorem sum_lookup {table : List (K × ℕ)} (htable : (table.map Prod.fst).Nodup) {ks : List K} (hks : ks.Nodup)
    (hsub : ∀ k ∈ table.map Prod.fst, k ∈ ks) :
    (ks.map fun k => (table.lookup k).getD 0).sum = (table.map Prod.snd).sum := by
  induction table with
  | nil => simp
  | cons e table ih =>
    obtain ⟨k, n⟩ := e
    obtain ⟨hnew, htable⟩ := List.nodup_cons.1 htable
    have hone : ∀ k', (((k, n) :: table).lookup k').getD 0 = (if k' = k then n else 0) + (table.lookup k').getD 0 := by
      intro k'
      rw [List.lookup_cons]
      by_cases heq : k' = k
      · subst heq
        rw [beq_self_eq_true, if_pos rfl, lookup_none.2 hnew]
        rfl
      · rw [(beq_eq_false_iff_ne (a := k') (b := k)).2 heq, if_neg heq, Nat.zero_add]
    have hself : (ks.map fun k' => if k' = k then n else 0).sum = n := by
      have hmem : k ∈ ks := hsub k List.mem_cons_self
      rw [List.sum_map_eq_nsmul_single k _ fun k' hne _ => if_neg hne, List.count_eq_one_of_mem hks hmem, if_pos rfl, one_nsmul]
    rw [List.map_congr_left fun k' _ => hone k', List.sum_map_add, hself,
      ih htable fun k' hk' => hsub k' (List.mem_cons_of_mem _ hk'), List.map_cons, List.sum_cons]

/-- Counted one by one, the keys of a list are as many as the list is long. -/
theorem sum_count {ks : List K} (hks : ks.Nodup) (hsub : ∀ k ∈ keys, k ∈ ks) : (ks.map keys.count).sum = keys.length := by
  have h := sum_lookup (nodup_keys_countBy keys) hks fun k hk => hsub k (mem_keys_countBy.1 hk)
  simpa only [lookup_countBy, sum_countBy] using h

section
variable {K : Type} [LinearOrder K] {k : K}

/-- A counter that has counted the keys one after the other. -/
def tally (keys : List K) : List (K × ℕ) := keys.foldl (fun counts k => increment k counts) []

/-- However the keys are compared. -/
theorem foldl_increment (d : DecidableEq K) (keys : List K) :
    keys.foldl (fun counts k => @increment K d k counts) [] = tally keys := by
  have hd : d = LinearOrder.toDecidableEq := Subsingleton.elim _ _
  rw [hd]
  rfl

theorem mem_keys_increment {k' : K} {counts : List (K × ℕ)} :
    k ∈ (increment k' counts).map Prod.fst ↔ k = k' ∨ k ∈ counts.map Prod.fst := by
  induction counts with
  | nil => simp [increment]
  | cons c counts ih =>
    obtain ⟨k₁, m⟩ := c
    rw [increment]
    by_cases hk : k₁ = k'
    · rw [if_pos hk, List.map_cons, List.mem_cons, List.map_cons, List.mem_cons, hk, ← or_assoc, or_self]
    · rw [if_neg hk, List.map_cons, List.mem_cons, ih, List.map_cons, List.mem_cons, or_left_comm]

theorem nodup_increment {counts : List (K × ℕ)} (h : (counts.map Prod.fst).Nodup) (k : K) :
    ((increment k counts).map Prod.fst).Nodup := by
  induction counts with
  | nil => exact List.nodup_singleton k
  | cons c counts ih =>
    obtain ⟨k₁, m⟩ := c
    obtain ⟨hnew, hnodup⟩ := List.nodup_cons.1 h
    rw [increment]
    by_cases hk : k₁ = k
    · rw [if_pos hk]
      exact h
    · rw [if_neg hk, List.map_cons, List.nodup_cons]
      exact ⟨fun hmem => (mem_keys_increment.1 hmem).elim hk hnew, ih hnodup⟩

theorem count_of_mem {counts : List (K × ℕ)} (h : (counts.map Prod.fst).Nodup) {n : ℕ} (hmem : (k, n) ∈ counts) :
    count k counts = n := by
  have habsent : ∀ {rest : List (K × ℕ)}, k ∉ rest.map Prod.fst → count k rest = 0 := by
    intro rest hrest
    induction rest with
    | nil => rfl
    | cons c rest ih =>
      obtain ⟨k₁, m⟩ := c
      rw [List.map_cons, List.mem_cons, not_or] at hrest
      rw [count, if_neg fun hk => hrest.1 hk.symm, ih hrest.2]
  induction counts with
  | nil => cases hmem
  | cons c counts ih =>
    obtain ⟨k₁, m⟩ := c
    obtain ⟨hnew, hnodup⟩ := List.nodup_cons.1 h
    rw [count]
    rcases List.mem_cons.1 hmem with heq | hmem
    · cases heq
      rw [if_pos rfl, habsent hnew, Nat.add_zero]
    · have hk : k₁ ≠ k := by
        rintro rfl
        exact hnew (List.mem_map.2 ⟨(k₁, n), hmem, rfl⟩)
      rw [if_neg hk, ih hnodup hmem]

theorem tally_spec (keys : List K) :
    ((tally keys).map Prod.fst).Nodup ∧ ∀ k, (k ∈ (tally keys).map Prod.fst ↔ k ∈ keys) ∧ count k (tally keys) = keys.count k := by
  induction keys using List.reverseRecOn with
  | nil => exact ⟨List.nodup_nil, fun k => ⟨Iff.rfl, rfl⟩⟩
  | append_singleton keys key ih =>
    obtain ⟨hnodup, hkeys⟩ := ih
    have hlast : tally (keys ++ [key]) = increment key (tally keys) := List.foldl_append
    rw [hlast]
    refine ⟨nodup_increment hnodup key, fun k => ⟨?_, ?_⟩⟩
    · rw [mem_keys_increment, (hkeys k).1, List.mem_append, List.mem_singleton, or_comm]
    · rw [count_increment, (hkeys k).2, List.count_append, List.count_singleton]
      simp only [beq_iff_eq]

/-- Sorted, a counter has the counts of its keys. -/
theorem sort_tally (keys : List K) : (tally keys).mergeSort (fun a b => a.1 ≤ b.1) = countBy keys := by
  obtain ⟨hnodup, hkeys⟩ := tally_spec keys
  have hperm : ((tally keys).mergeSort fun a b => a.1 ≤ b.1).Perm (countBy keys) := by
    refine (List.mergeSort_perm _ _).trans ((List.perm_ext_iff_of_nodup hnodup.of_map (nodup_keys_countBy keys).of_map).2 ?_)
    rintro ⟨k, n⟩
    have hcount : (k, n) ∈ countBy keys ↔ k ∈ keys ∧ n = keys.count k := by
      rw [countBy, List.mem_map]
      simp only [List.mem_insertionSort, List.mem_dedup, Prod.mk.injEq]
      exact ⟨fun ⟨k', hk', hk, hn⟩ => hk ▸ ⟨hk', hn.symm⟩, fun ⟨hk, hn⟩ => ⟨k, hk, rfl, hn.symm⟩⟩
    rw [hcount, ← (hkeys k).1, ← (hkeys k).2]
    refine ⟨fun h => ⟨List.mem_map_of_mem h, (count_of_mem hnodup h).symm⟩, fun ⟨hk, hn⟩ => ?_⟩
    obtain ⟨⟨k', m⟩, hmem, rfl⟩ := List.mem_map.1 hk
    rw [hn, count_of_mem hnodup hmem]
    exact hmem
  refine @List.Perm.eq_of_pairwise _ (fun a b => a.1 ≤ b.1) _ _ (fun a b ha hb hab hba => ?_) ?_ ?_ hperm
  · exact List.inj_on_of_nodup_map (nodup_keys_countBy keys) (hperm.mem_iff.1 ha) hb (le_antisymm hab hba)
  · refine (List.pairwise_mergeSort ?_ ?_ _).imp fun h => by simpa using h
    · intro a b c hab hbc
      rw [decide_eq_true_eq] at hab hbc ⊢
      exact hab.trans hbc
    · intro a b
      rw [Bool.or_eq_true, decide_eq_true_eq, decide_eq_true_eq]
      exact le_total a.1 b.1
  · have hsorted := List.pairwise_insertionSort (· ≤ ·) keys.dedup
    rw [← keys_countBy, List.pairwise_map] at hsorted
    exact hsorted

end

end LogAnalytics.Lib
