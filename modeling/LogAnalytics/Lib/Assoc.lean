import Mathlib.Data.List.Nodup
/-!
# Ordered dictionaries

A list of keys and values in which a key that is written moves to the end.
-/

namespace LogAnalytics.Lib

variable {K V : Type*} [BEq K] [LawfulBEq K] {l : List (K × V)} {k : K} {v : V}

theorem lookup_none : l.lookup k = none ↔ k ∉ l.map Prod.fst := by
  rw [List.lookup_eq_none_iff, List.mem_map]
  constructor
  · rintro h ⟨e, he, rfl⟩
    simpa using h e he
  · intro h e he
    simpa using fun heq : k = e.1 => h ⟨e, he, heq.symm⟩

theorem mem_of_lookup (h : l.lookup k = some v) : (k, v) ∈ l := by
  obtain ⟨before, after, rfl, -⟩ := List.lookup_eq_some_iff.1 h
  simp

theorem lookup_of_mem (h : k ∈ l.map Prod.fst) : ∃ v, l.lookup k = some v := by
  cases hfound : l.lookup k with
  | none => exact absurd h (lookup_none.1 hfound)
  | some v => exact ⟨v, rfl⟩

theorem lookup_of_nodup (hl : (l.map Prod.fst).Nodup) (h : (k, v) ∈ l) : l.lookup k = some v := by
  obtain ⟨u, hfound⟩ := lookup_of_mem (List.mem_map.2 ⟨(k, v), h, rfl⟩)
  have heq := List.inj_on_of_nodup_map hl (mem_of_lookup hfound) h rfl
  rw [hfound, (Prod.mk.inj heq).2]

theorem nodup_moved {keys : List K} (h : keys.Nodup) (k : K) : (keys.erase k ++ [k]).Nodup := by
  refine List.nodup_append.2 ⟨h.erase k, List.nodup_singleton k, ?_⟩
  rintro a ha b hb rfl
  exact (h.mem_erase_iff.1 ha).1 (List.mem_singleton.1 hb)

variable [DecidableEq K]

theorem lookup_others (l : List (K × V)) (k other : K) :
    (l.filter (·.1 ≠ other)).lookup k = if k = other then none else l.lookup k := by
  split
  · next heq =>
    rw [lookup_none, List.mem_map]
    rintro ⟨e, he, rfl⟩
    simp [heq] at he
  · next hne =>
    induction l with
    | nil => rfl
    | cons e l ih =>
      by_cases he : e.1 = other
      · have hk : (k == e.1) = false := by simpa [he] using hne
        rw [List.filter_cons_of_neg (by simpa using he), ih, List.lookup_cons, hk]
      · rw [List.filter_cons_of_pos (by simpa using he), List.lookup_cons, List.lookup_cons, ih]

theorem lookup_snoc (l : List (K × V)) (k other : K) (v : V) (h : l.lookup other = none) :
    (l ++ [(other, v)]).lookup k = if k = other then some v else l.lookup k := by
  rw [List.lookup_append]
  by_cases hk : k = other
  · rw [if_pos hk, hk, h, List.lookup_cons_self]
    rfl
  · have hne : (k == other) = false := by simpa using hk
    rw [if_neg hk, List.lookup_cons, hne, List.lookup_nil, Option.or_none]

/-- With one entry a key, a filter keeps the entry or not. -/
theorem lookup_filter {l : List (K × V)} (hl : (l.map Prod.fst).Nodup) (keep : K × V → Bool) (k : K) :
    (l.filter keep).lookup k = (l.lookup k).filter fun v => keep (k, v) := by
  induction l with
  | nil => rfl
  | cons e l ih =>
    obtain ⟨key, v⟩ := e
    rw [List.map_cons, List.nodup_cons] at hl
    by_cases hk : k = key
    · subst hk
      rw [List.lookup_cons_self, Option.filter_some]
      by_cases hkeep : keep (k, v) = true
      · rw [List.filter_cons_of_pos hkeep, List.lookup_cons_self, if_pos hkeep]
      · rw [List.filter_cons_of_neg hkeep, ih hl.2, lookup_none.2 hl.1, if_neg hkeep]
        rfl
    · have hne : (k == key) = false := by simpa using hk
      rw [List.lookup_cons, hne, ← ih hl.2]
      by_cases hkeep : keep (key, v) = true
      · rw [List.filter_cons_of_pos hkeep, List.lookup_cons, hne]
      · rw [List.filter_cons_of_neg hkeep]

/-! ## The keys -/

theorem keys_others (hl : (l.map Prod.fst).Nodup) (k : K) :
    (l.filter (·.1 ≠ k)).map Prod.fst = (l.map Prod.fst).erase k := by
  rw [hl.erase_eq_filter, List.filter_map]
  congr 1
  exact List.filter_congr fun e _ => by simp [bne, ← Bool.beq_eq_decide_eq]

theorem mem_moved {keys : List K} {k other : K} : other ∈ keys.erase k ++ [k] ↔ other ∈ keys ∨ other = k := by
  rw [List.mem_append, List.mem_singleton]
  by_cases h : other = k
  · simp [h]
  · rw [List.mem_erase_of_ne h]

end LogAnalytics.Lib
