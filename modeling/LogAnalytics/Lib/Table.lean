import Mathlib.Data.List.Nodup
import LogAnalytics.Lib.Assoc
/-!
# Tables

A list of keys and values in which a key that is assigned again stays in its place and a new one
goes to the end.
-/

namespace LogAnalytics.Lib

abbrev Table (K V : Type*) := List (K × V)

namespace Table

variable {K V : Type*}

def keys (d : Table K V) : List K := d.map Prod.fst

variable [DecidableEq K]

def get (d : Table K V) (k : K) : Option V := d.lookup k

def put (k : K) (v : V) : Table K V → Table K V
  | [] => [(k, v)]
  | e :: d => if e.1 = k then (k, v) :: d else e :: put k v d

theorem get_eq_none {d : Table K V} {k : K} : get d k = none ↔ k ∉ keys d := lookup_none

theorem get_cons (e : K × V) (d : Table K V) (k : K) : get (e :: d) k = if k = e.1 then some e.2 else get d k := by
  rw [get, List.lookup_cons]
  by_cases h : k = e.1
  · rw [beq_iff_eq.2 h, if_pos h]
  · rw [beq_false_of_ne h, if_neg h]
    rfl

theorem get_put (k : K) (v : V) (d : Table K V) (other : K) :
    get (put k v d) other = if other = k then some v else get d other := by
  induction d with
  | nil => exact get_cons _ _ _
  | cons e d ih =>
    rw [put]
    split
    · next hk =>
      rw [get_cons, get_cons, hk]
      split <;> rfl
    · next hk =>
      rw [get_cons, get_cons, ih]
      split
      · next he => rw [if_neg (he ▸ hk)]
      · rfl

theorem put_new {k : K} (v : V) {d : Table K V} (h : k ∉ keys d) : put k v d = d ++ [(k, v)] := by
  induction d with
  | nil => rfl
  | cons e d ih =>
    rw [keys, List.map_cons, List.mem_cons, not_or] at h
    rw [put, if_neg (Ne.symm h.1), ih h.2]
    rfl

theorem keys_put (k : K) (v : V) (d : Table K V) : keys (put k v d) = if k ∈ keys d then keys d else keys d ++ [k] := by
  split
  · next h =>
    induction d with
    | nil => cases h
    | cons e d ih =>
      rw [put]
      split
      · next hk => rw [keys, keys, List.map_cons, List.map_cons, hk]
      · next hk =>
        have hrest : k ∈ keys d := (List.mem_cons.1 h).resolve_left (Ne.symm hk)
        exact congrArg (e.1 :: ·) (ih hrest)
  · next h => rw [put_new v h, keys, List.map_append]; rfl

theorem mem_keys_put {k other : K} {v : V} {d : Table K V} : other ∈ keys (put k v d) ↔ other = k ∨ other ∈ keys d := by
  rw [keys_put]
  split
  · next h => exact ⟨.inr, fun ho => ho.elim (· ▸ h) id⟩
  · rw [List.mem_append, List.mem_singleton, or_comm]

theorem nodup_put (k : K) (v : V) {d : Table K V} (h : (keys d).Nodup) : (keys (put k v d)).Nodup := by
  rw [keys_put]
  split
  · exact h
  · next hk => exact List.nodup_append.2 ⟨h, List.nodup_singleton k, fun a ha b hb heq =>
      hk (List.mem_singleton.1 hb ▸ heq ▸ ha)⟩

end Table

end LogAnalytics.Lib
