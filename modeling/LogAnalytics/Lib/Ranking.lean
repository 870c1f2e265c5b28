import Mathlib.Data.List.Pairwise
import Mathlib.Data.List.Sort
/-!
# The first of a ranking

Two orders give a list the same first `n` elements exactly when they agree on how each of these
compares with every other element.
-/

namespace LogAnalytics.Lib

/-- The larger count first, and of equal counts the least key. -/
def Ranks {K : Type*} [LinearOrder K] (a b : K × ℕ) : Prop := b.2 < a.2 ∨ (a.2 = b.2 ∧ a.1 ≤ b.1)

namespace Ranks

variable {K : Type*} [LinearOrder K]

instance : DecidableRel (Ranks (K := K)) := fun a b => inferInstanceAs (Decidable (b.2 < a.2 ∨ (a.2 = b.2 ∧ a.1 ≤ b.1)))

instance : Std.Total (Ranks (K := K)) where
  total a b := by
    unfold Ranks
    rcases Nat.lt_trichotomy a.2 b.2 with h | h | h
    · exact .inr (.inl h)
    · exact (le_total a.1 b.1).imp (fun hle => .inr ⟨h, hle⟩) fun hle => .inr ⟨h.symm, hle⟩
    · exact .inl (.inl h)

instance : IsTrans (K × ℕ) Ranks where
  trans a b c hab hbc := by
    unfold Ranks at *
    rcases hab with hab | ⟨hab, hkey⟩ <;> rcases hbc with hbc | ⟨hbc, hkey'⟩
    · exact .inl (hbc.trans hab)
    · exact .inl (hbc ▸ hab)
    · exact .inl (hab ▸ hbc)
    · exact .inr ⟨hab.trans hbc, hkey.trans hkey'⟩

instance : Std.Antisymm (Ranks (K := K)) where
  antisymm a b hab hba := by
    unfold Ranks at *
    have hcount : a.2 = b.2 := by omega
    exact Prod.ext (le_antisymm (by grind) (by grind)) hcount

end Ranks

section

variable {α : Type*} {r s : α → α → Prop} [Std.Total r] [Std.Antisymm r] [Std.Total s] [Std.Antisymm s]

/-- In a list sorted both ways the two orders agree. -/
theorem iff_of_pairwise {l : List α} (hr : l.Pairwise r) (hs : l.Pairwise s) {a b : α} (ha : a ∈ l) (hb : b ∈ l) :
    r a b ↔ s a b := by
  by_cases hne : a = b
  · subst hne
    exact iff_of_true (refl a) (refl a)
  · have hboth : l.Pairwise fun x y => (r x y ∧ s x y) ∨ (r y x ∧ s y x) := (hr.and hs).imp Or.inl
    have : Std.Symm fun x y => (r x y ∧ s x y) ∨ (r y x ∧ s y x) := ⟨fun _ _ h => h.symm⟩
    rcases hboth.forall ha hb hne with ⟨hrab, hsab⟩ | ⟨hrba, hsba⟩
    · exact iff_of_true hrab hsab
    · exact iff_of_false (fun h => hne (antisymm h hrba)) fun h => hne (antisymm h hsba)

/-- The first `n` are the same exactly when the orders agree on them. -/
theorem take_eq_take_iff [IsTrans α s] {l₁ l₂ : List α} (hperm : l₁.Perm l₂) (h₁ : l₁.Pairwise r) (h₂ : l₂.Pairwise s) (n : ℕ) :
    l₁.take n = l₂.take n ↔ ∀ a ∈ l₁.take n, ∀ b ∈ l₁, (r a b ↔ s a b) := by
  have hsplit₁ := List.take_append_drop n l₁
  have hsplit₂ := List.take_append_drop n l₂
  constructor
  · intro htake a ha b hb
    have hrest : (l₁.drop n).Perm (l₂.drop n) := (List.perm_append_left_iff (l₁.take n)).1 (by
      rw [hsplit₁, htake, hsplit₂]
      exact hperm)
    rw [← hsplit₁, List.pairwise_append] at h₁
    rw [← hsplit₂, List.pairwise_append, ← htake] at h₂
    rcases List.mem_append.1 (hsplit₁ ▸ hb) with hb | hb
    · exact iff_of_pairwise h₁.1 h₂.1 ha hb
    · exact iff_of_true (h₁.2.2 a ha b hb) (h₂.2.2 a ha b (hrest.mem_iff.1 hb))
  · intro hagree
    classical
    rw [← hsplit₁, List.pairwise_append] at h₁
    -- what is not taken can be sorted the other way behind what is
    have hrest := List.perm_insertionSort s (l₁.drop n)
    have hsorted : (l₁.take n ++ (l₁.drop n).insertionSort s).Pairwise s := by
      refine List.pairwise_append.2 ⟨?_, List.pairwise_insertionSort s _, fun a ha b hb => ?_⟩
      · exact h₁.1.imp_of_mem fun {a b} ha hb hab => (hagree a ha b (List.mem_of_mem_take hb)).1 hab
      · have hb' := hrest.mem_iff.1 hb
        exact (hagree a ha b (List.mem_of_mem_drop hb')).1 (h₁.2.2 a ha b hb')
    have hall : l₁.take n ++ (l₁.drop n).insertionSort s = l₂ :=
      ((hsplit₁ ▸ hrest.append_left (l₁.take n)).trans hperm).eq_of_pairwise' hsorted h₂
    have hshort : ((l₁.drop n).insertionSort s).take (n - (l₁.take n).length) = [] := by
      rw [List.take_eq_nil_iff, List.length_take, ← List.length_eq_zero_iff, List.length_insertionSort, List.length_drop]
      omega
    rw [← hall, List.take_append, List.take_take, Nat.min_self, hshort, List.append_nil]

end

end LogAnalytics.Lib
