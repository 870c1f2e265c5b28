import Mathlib.Algebra.GroupWithZero.Nat
import Mathlib.Algebra.BigOperators.Group.List.Basic
import Mathlib.Data.List.AList
import Mathlib.Algebra.Order.Group.Multiset
/-!
# Files

A set of files: one content for each path that exists. `total` sums a quantity over the
files, such as the rows a reader sees in them; every operation changes it by what it says
of the paths it touches, and of no other.
-/

namespace LogAnalytics.Lib

/-- The files of a store, by path. -/
abbrev Files (P C : Type) := AList fun _ : P => C

namespace Files

variable {P C M : Type} [DecidableEq P] [AddCommMonoid M]

/-- The sum of `f` over the files. -/
def total (f : P → C → M) (fs : Files P C) : M := (fs.entries.map fun e => f e.1 e.2).sum

/-- The part of the sum the file at `p` has, if there is one. -/
def part (f : P → C → M) (fs : Files P C) (p : P) : M := (fs.lookup p).elim 0 (f p)

/-- Give the file at `p` the path `q`, in place of any file there. -/
def rename (fs : Files P C) (p q : P) : Files P C :=
  match fs.lookup p with
  | none => fs
  | some c => (fs.erase p).insert q c

theorem part_of_lookup {f : P → C → M} {fs : Files P C} {p : P} {c : C} (h : fs.lookup p = some c) :
    part f fs p = f p c := by
  simp [part, h]

theorem part_of_absent {f : P → C → M} {fs : Files P C} {p : P} (h : fs.lookup p = none) : part f fs p = 0 := by
  simp [part, h]

theorem part_of_zero {f : P → C → M} {p : P} (hf : ∀ c, f p c = 0) (fs : Files P C) : part f fs p = 0 := by
  unfold part
  cases fs.lookup p with
  | none => rfl
  | some c => exact hf c

theorem total_erase (f : P → C → M) (fs : Files P C) (p : P) : total f (fs.erase p) + part f fs p = total f fs := by
  by_cases hp : p ∈ fs
  · obtain ⟨c, l₁, l₂, hn, he, hk⟩ := List.exists_of_kerase (AList.mem_keys.1 hp)
    have hl : fs.lookup p = some c := by
      rw [AList.lookup, he, List.dlookup_append]
      simp [List.dlookup_eq_none.2 hn]
    have hk' : (fs.erase p).entries = l₁ ++ l₂ := hk
    simp only [total, part, hl, he, hk', Option.elim_some, List.map_append, List.map_cons, List.sum_append,
      List.sum_cons]
    rw [add_assoc, add_comm _ (f p c)]
  · have hk : (fs.erase p).entries = fs.entries := List.kerase_of_notMem_keys (fun h => hp (AList.mem_keys.2 h))
    simp only [total, part, AList.lookup_eq_none.2 hp, hk, Option.elim_none, add_zero]

theorem total_insert (f : P → C → M) (fs : Files P C) (p : P) (c : C) :
    total f (fs.insert p c) + part f fs p = total f fs + f p c := by
  have h : total f (fs.insert p c) = f p c + total f (fs.erase p) := by
    simp only [total, AList.entries_insert, List.map_cons, List.sum_cons]
    rfl
  rw [h, add_assoc, total_erase, add_comm]

/-- A path `f` does not count can be written and removed freely. -/
theorem total_insert_of_zero {f : P → C → M} {p : P} (hf : ∀ c, f p c = 0) (fs : Files P C) (c : C) :
    total f (fs.insert p c) = total f fs := by
  have h := total_insert f fs p c
  rwa [part_of_zero hf, hf, add_zero, add_zero] at h

theorem total_erase_of_zero {f : P → C → M} {p : P} (hf : ∀ c, f p c = 0) (fs : Files P C) :
    total f (fs.erase p) = total f fs := by
  have h := total_erase f fs p
  rwa [part_of_zero hf, add_zero] at h

theorem total_insert_new {f : P → C → M} {fs : Files P C} {p : P} (h : fs.lookup p = none) (c : C) :
    total f (fs.insert p c) = total f fs + f p c := by
  have h' := total_insert f fs p c
  rwa [part_of_absent h, add_zero] at h'

theorem lookup_rename {fs : Files P C} {p q : P} {c : C} (h : fs.lookup p = some c) :
    (fs.rename p q).lookup q = some c := by
  simp [rename, h]

theorem lookup_rename_of_ne {fs : Files P C} {p q r : P} (hp : r ≠ p) (hq : r ≠ q) :
    (fs.rename p q).lookup r = fs.lookup r := by
  unfold rename
  cases fs.lookup p with
  | none => rfl
  | some c => simp only [AList.lookup_insert_ne hq, AList.lookup_erase_ne hp]

/-- Renaming an uncounted file to a free path adds what it counts there. -/
theorem total_rename {f : P → C → M} {fs : Files P C} {p q : P} {c : C} (hf : ∀ c, f p c = 0)
    (hp : fs.lookup p = some c) (hq : fs.lookup q = none) (hne : q ≠ p) :
    total f (fs.rename p q) = total f fs + f q c := by
  have hq' : (fs.erase p).lookup q = none := by rwa [AList.lookup_erase_ne hne]
  simp only [rename, hp]
  rw [total_insert_new hq', total_erase_of_zero hf]

/-! ## Sums over paths -/

theorem total_eq_keys (f : P → C → M) (fs : Files P C) : total f fs = (fs.keys.map (part f fs)).sum := by
  have hpart : ∀ e ∈ fs.entries, f e.1 e.2 = part f fs e.1 := fun e he =>
    (part_of_lookup (List.mem_dlookup fs.nodupKeys he)).symm
  simp only [total, AList.keys, List.keys, List.map_map, Function.comp_def]
  rw [List.map_congr_left hpart]

/-- Only the paths `f` counts matter. -/
theorem total_eq_filter {f : P → C → M} {counted : P → Bool} (hf : ∀ p c, counted p = false → f p c = 0)
    (fs : Files P C) : total f fs = ((fs.keys.filter counted).map (part f fs)).sum := by
  rw [total_eq_keys]
  induction fs.keys with
  | nil => rfl
  | cons p ps ih =>
    rw [List.map_cons, List.sum_cons, ih]
    cases hp : counted p with
    | true => rw [List.filter_cons_of_pos hp, List.map_cons, List.sum_cons]
    | false => rw [List.filter_cons_of_neg (by simp [hp]), part_of_zero (hf p · hp), zero_add]

/-- Remove the files at the paths, one after the other. -/
def eraseAll (fs : Files P C) (ps : List P) : Files P C := ps.foldl (fun fs p => fs.erase p) fs

theorem lookup_eraseAll {ps : List P} {p : P} (h : p ∉ ps) : ∀ fs : Files P C, (eraseAll fs ps).lookup p = fs.lookup p := by
  induction ps with
  | nil => intro fs; rfl
  | cons q ps ih =>
    intro fs
    rw [List.mem_cons, not_or] at h
    exact (ih h.2 _).trans (AList.lookup_erase_ne h.1)

theorem lookup_eraseAll_mem {ps : List P} {p : P} (h : p ∈ ps) : ∀ fs : Files P C, (eraseAll fs ps).lookup p = none := by
  induction ps with
  | nil => cases h
  | cons q ps ih =>
    intro fs
    by_cases hp : p ∈ ps
    · exact ih hp _
    · rw [show eraseAll fs (q :: ps) = eraseAll (fs.erase q) ps from rfl, lookup_eraseAll hp,
        (List.mem_cons.1 h).resolve_right hp, AList.lookup_erase]

theorem total_eraseAll (f : P → C → M) {ps : List P} (hn : ps.Nodup) : ∀ fs : Files P C,
    total f (eraseAll fs ps) + (ps.map (part f fs)).sum = total f fs := by
  induction ps with
  | nil => intro fs; exact add_zero _
  | cons p ps ih =>
    intro fs
    obtain ⟨hp, hn⟩ := List.nodup_cons.1 hn
    have hrest : ps.map (part f (fs.erase p)) = ps.map (part f fs) := by
      refine List.map_congr_left fun q hq => ?_
      have hne : q ≠ p := by rintro rfl; exact hp hq
      simp only [part, AList.lookup_erase_ne hne]
    have h := ih hn (fs.erase p)
    rw [hrest] at h
    rw [show eraseAll fs (p :: ps) = eraseAll (fs.erase p) ps from rfl, List.map_cons, List.sum_cons,
      add_comm (part f fs p), ← add_assoc, h, total_erase]

/-! ## Files beside others -/

/-- The files `fs` are those of `base` and those of `new`, of which only `new` has paths in `mine`. -/
structure Beside (base : Files P C) (mine : P → Prop) (fs new : Files P C) : Prop where
  same : ∀ p, mine p → fs.lookup p = new.lookup p
  base : ∀ p, ¬ mine p → fs.lookup p = base.lookup p
  none : ∀ p, ¬ mine p → new.lookup p = none

namespace Beside

variable {base fs new : Files P C} {mine : P → Prop} {p q : P}

omit [DecidableEq P] in
theorem ne_of_mine (hp : mine p) (hq : ¬ mine q) : q ≠ p := by
  rintro rfl
  exact hq hp

theorem insert (h : Beside base mine fs new) (hp : mine p) (c : C) : Beside base mine (fs.insert p c) (new.insert p c) where
  same q hq := by
    by_cases hqp : q = p
    · rw [hqp, AList.lookup_insert, AList.lookup_insert]
    · rw [AList.lookup_insert_ne hqp, AList.lookup_insert_ne hqp, h.same q hq]
  base q hq := by rw [AList.lookup_insert_ne (ne_of_mine hp hq), h.base q hq]
  none q hq := by rw [AList.lookup_insert_ne (ne_of_mine hp hq), h.none q hq]

theorem erase (h : Beside base mine fs new) (hp : mine p) : Beside base mine (fs.erase p) (new.erase p) where
  same q hq := by
    by_cases hqp : q = p
    · rw [hqp, AList.lookup_erase, AList.lookup_erase]
    · rw [AList.lookup_erase_ne hqp, AList.lookup_erase_ne hqp, h.same q hq]
  base q hq := by rw [AList.lookup_erase_ne (ne_of_mine hp hq), h.base q hq]
  none q hq := by rw [AList.lookup_erase_ne (ne_of_mine hp hq), h.none q hq]

theorem rename (h : Beside base mine fs new) (hp : mine p) (hq : mine q) :
    Beside base mine (fs.rename p q) (new.rename p q) := by
  unfold Files.rename
  rw [h.same p hp]
  cases new.lookup p with
  | none => exact h
  | some c => exact (h.erase hp).insert hq c

/-- What is counted is counted in `base` or in `new`. -/
theorem total (h : Beside base mine fs new) (hbase : ∀ p, mine p → base.lookup p = Option.none) (f : P → C → M) :
    fs.total f = base.total f + new.total f := by
  have hdisjoint : ∀ p, p ∈ base.entries.keys → p ∉ new.entries.keys := by
    intro p hp hn
    by_cases hm : mine p
    · exact List.dlookup_eq_none.1 (hbase p hm) hp
    · exact List.dlookup_eq_none.1 (h.none p hm) hn
  have hnodup : (base.entries ++ new.entries).NodupKeys := by
    rw [List.NodupKeys, List.keys, List.map_append]
    exact List.nodup_append'.2 ⟨base.nodupKeys, new.nodupKeys, hdisjoint⟩
  have hlookup : ∀ p, fs.entries.dlookup p = (base.entries ++ new.entries).dlookup p := by
    intro p
    rw [List.dlookup_append]
    by_cases hm : mine p
    · have hnone : base.entries.dlookup p = Option.none := hbase p hm
      rw [hnone, Option.none_or]
      exact h.same p hm
    · have hnone : new.entries.dlookup p = Option.none := h.none p hm
      rw [hnone, Option.or_none]
      exact h.base p hm
  have hperm : fs.entries.Perm (base.entries ++ new.entries) :=
    List.lookup_ext fs.nodupKeys hnodup fun p c => by rw [hlookup p]
  rw [Files.total, (hperm.map _).sum_eq, List.map_append, List.sum_append]
  rfl

end Beside

end Files

end LogAnalytics.Lib
