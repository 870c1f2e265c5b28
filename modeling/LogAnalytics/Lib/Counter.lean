import Mathlib.Algebra.GroupWithZero.Nat
import Mathlib.Data.List.Basic
/-!
# Counters

How often each key was counted, in the order in which the keys first came up.
-/

namespace LogAnalytics.Lib

variable {K : Type} [DecidableEq K]

/-- Count `k` once more. -/
def increment (k : K) : List (K × Nat) → List (K × Nat)
  | [] => [(k, 1)]
  | (k', n) :: rest => if k' = k then (k', n + 1) :: rest else (k', n) :: increment k rest

omit [DecidableEq K] in
/-- Everything counted. -/
def total (counts : List (K × Nat)) : Nat := (counts.map Prod.snd).sum

theorem total_increment (k : K) (counts : List (K × Nat)) : total (increment k counts) = total counts + 1 := by
  induction counts with
  | nil => rfl
  | cons c rest ih =>
    obtain ⟨k', n⟩ := c
    rw [increment]
    split
    · simp only [total, List.map_cons, List.sum_cons]
      omega
    · simp only [total, List.map_cons, List.sum_cons] at ih ⊢
      omega

theorem increment_ne_nil (k : K) (counts : List (K × Nat)) : increment k counts ≠ [] := by
  cases counts with
  | nil => exact List.cons_ne_nil _ _
  | cons c rest =>
    rw [increment]
    split
    · exact List.cons_ne_nil _ _
    · exact List.cons_ne_nil _ _

/-- Count `k` another `n` times. -/
def addCount (k : K) (n : Nat) : List (K × Nat) → List (K × Nat)
  | [] => [(k, n)]
  | (k', m) :: rest => if k' = k then (k', m + n) :: rest else (k', m) :: addCount k n rest

/-- How often `k` was counted. -/
def count (k : K) : List (K × Nat) → Nat
  | [] => 0
  | (k', n) :: rest => if k' = k then n + count k rest else count k rest

theorem count_increment (k k' : K) (counts : List (K × Nat)) :
    count k (increment k' counts) = count k counts + if k' = k then 1 else 0 := by
  induction counts with
  | nil =>
    simp only [increment, count]
    split <;> simp
  | cons c rest ih =>
    obtain ⟨k₁, m⟩ := c
    rw [increment]
    by_cases hk : k₁ = k'
    · subst hk
      rw [if_pos rfl, count, count]
      split <;> omega
    · rw [if_neg hk, count, count, ih]
      by_cases hkey : k₁ = k
      · rw [if_pos hkey, if_pos hkey, if_neg (fun h => hk (hkey.trans h.symm)), Nat.add_zero, Nat.add_zero]
      · rw [if_neg hkey, if_neg hkey]

theorem count_addCount (k k' : K) (n : Nat) (counts : List (K × Nat)) :
    count k (addCount k' n counts) = count k counts + if k' = k then n else 0 := by
  induction counts with
  | nil =>
    simp only [addCount, count]
    split <;> simp
  | cons c rest ih =>
    obtain ⟨k₁, m⟩ := c
    rw [addCount]
    by_cases h : k₁ = k'
    · subst h
      rw [if_pos rfl]
      simp only [count]
      split <;> omega
    · rw [if_neg h]
      simp only [count, ih]
      split <;> omega

/-- Add the counts of the second counter to the first. -/
def addCounts (counts : List (K × Nat)) (more : List (K × Nat)) : List (K × Nat) :=
  more.foldl (fun counts c => addCount c.1 c.2 counts) counts

theorem count_addCounts (k : K) (more : List (K × Nat)) :
    ∀ counts, count k (addCounts counts more) = count k counts + count k more := by
  induction more with
  | nil => intro counts; rfl
  | cons c more ih =>
    intro counts
    have h : addCounts counts (c :: more) = addCounts (addCount c.1 c.2 counts) more := rfl
    rw [h, ih, count_addCount]
    simp only [count]
    split <;> omega

end LogAnalytics.Lib
