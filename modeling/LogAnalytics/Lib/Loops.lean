import Mathlib.Data.List.Basic
/-!
# Loops that stop at the first exception
-/

namespace LogAnalytics.Lib

variable {ε α β : Type}

theorem ok_bind (a : α) (f : α → Except ε β) : (Except.ok a >>= f) = f a := rfl

theorem bind_ok {x : Except ε α} {f : α → Except ε β} {b : β} :
    (x >>= f) = .ok b ↔ ∃ a, x = .ok a ∧ f a = .ok b := by
  cases x with
  | error e => exact iff_of_false (by intro h; cases h) (by rintro ⟨a, h, -⟩; cases h)
  | ok a => exact ⟨fun h => ⟨a, rfl, h⟩, by rintro ⟨_, h, hf⟩; cases h; exact hf⟩

theorem map_ok {x : Except ε α} {f : α → β} {b : β} : x.map f = .ok b ↔ ∃ a, x = .ok a ∧ f a = b := by
  cases x with
  | error e => exact iff_of_false (by intro h; cases h) (by rintro ⟨a, h, -⟩; cases h)
  | ok a => simp [Except.map]

/-- A loop over a list collects one result for each element. -/
theorem mapM_ok {f : α → Except ε β} {xs : List α} : ∀ {ys : List β},
    xs.mapM f = .ok ys ↔ List.Forall₂ (fun x y => f x = .ok y) xs ys := by
  induction xs with
  | nil =>
    intro ys
    rw [List.mapM_nil]
    constructor
    · intro h; cases h; exact .nil
    · intro h; cases h; rfl
  | cons x xs ih =>
    intro ys
    rw [List.mapM_cons, bind_ok]
    constructor
    · rintro ⟨y, hy, h⟩
      obtain ⟨zs, hzs, h⟩ := bind_ok.1 h
      cases h
      exact .cons hy (ih.1 hzs)
    · intro h
      cases h with
      | cons hy hzs => exact ⟨_, hy, bind_ok.2 ⟨_, ih.2 hzs, rfl⟩⟩

theorem exists_mapM {f : α → Except ε β} {xs : List α} :
    (∃ ys, xs.mapM f = .ok ys) ↔ ∀ x ∈ xs, ∃ y, f x = .ok y := by
  simp only [mapM_ok]
  constructor
  · rintro ⟨ys, h⟩
    induction h with
    | nil => simp
    | cons hy _ ih => exact List.forall_mem_cons.2 ⟨⟨_, hy⟩, ih⟩
  · intro h
    induction xs with
    | nil => exact ⟨[], .nil⟩
    | cons x xs ih =>
      obtain ⟨⟨y, hy⟩, h⟩ := List.forall_mem_cons.1 h
      obtain ⟨ys, hys⟩ := ih h
      exact ⟨y :: ys, .cons hy hys⟩

theorem mapM_congr {f g : α → Except ε β} {xs : List α} (h : ∀ x ∈ xs, f x = g x) : xs.mapM f = xs.mapM g := by
  induction xs with
  | nil => rfl
  | cons x xs ih =>
    obtain ⟨hx, hxs⟩ := List.forall_mem_cons.1 h
    rw [List.mapM_cons, List.mapM_cons, hx, ih hxs]

/-- Loops with the same results have the same result for each element. -/
theorem eq_of_mapM_eq {f g : α → Except ε β} {xs : List α} {ys : List β} (hf : xs.mapM f = .ok ys)
    (hg : xs.mapM g = .ok ys) : ∀ x ∈ xs, f x = g x := by
  induction xs generalizing ys with
  | nil => exact List.forall_mem_nil _
  | cons x xs ih =>
    rw [mapM_ok] at hf hg
    cases hf with
    | cons hfx hfxs =>
      cases hg with
      | cons hgx hgxs =>
        exact List.forall_mem_cons.2 ⟨hfx.trans hgx.symm, ih (mapM_ok.2 hfxs) (mapM_ok.2 hgxs)⟩

/-- The elements `keep` says to keep. -/
def selectM (keep : α → Except ε Bool) : List α → Except ε (List α)
  | [] => .ok []
  | x :: xs => do
    let kept ← keep x
    let rest ← selectM keep xs
    return if kept then x :: rest else rest

theorem mem_of_selectM {keep : α → Except ε Bool} {y : α} {xs : List α} : ∀ {ys : List α},
    selectM keep xs = .ok ys → (y ∈ ys ↔ y ∈ xs ∧ keep y = .ok true) := by
  induction xs with
  | nil => intro ys h; cases h; simp
  | cons x xs ih =>
    intro ys h
    obtain ⟨kept, hk, h⟩ := bind_ok.1 h
    obtain ⟨rest, hr, h⟩ := bind_ok.1 h
    cases h
    cases kept with
    | false =>
      rw [if_neg (by decide), ih hr, List.mem_cons]
      refine ⟨fun ⟨hy, hy'⟩ => ⟨.inr hy, hy'⟩, ?_⟩
      rintro ⟨rfl | hy, hy'⟩
      · rw [hk] at hy'; cases hy'
      · exact ⟨hy, hy'⟩
    | true =>
      rw [if_pos rfl, List.mem_cons, List.mem_cons, ih hr, or_and_right]
      refine or_congr_left ⟨?_, And.left⟩
      rintro rfl
      exact ⟨rfl, hk⟩

theorem sublist_of_selectM {keep : α → Except ε Bool} {xs : List α} : ∀ {ys : List α},
    selectM keep xs = .ok ys → ys.Sublist xs := by
  induction xs with
  | nil => intro ys h; cases h; exact .slnil
  | cons x xs ih =>
    intro ys h
    obtain ⟨kept, -, h⟩ := bind_ok.1 h
    obtain ⟨rest, hr, h⟩ := bind_ok.1 h
    cases h
    cases kept with
    | false => exact (ih hr).cons x
    | true => exact (ih hr).cons_cons x

theorem exists_selectM {keep : α → Except ε Bool} {xs : List α} :
    (∃ ys, selectM keep xs = .ok ys) ↔ ∀ x ∈ xs, ∃ b, keep x = .ok b := by
  induction xs with
  | nil => exact iff_of_true ⟨[], rfl⟩ (by simp)
  | cons x xs ih =>
    rw [List.forall_mem_cons, ← ih]
    constructor
    · rintro ⟨ys, h⟩
      obtain ⟨kept, hk, h⟩ := bind_ok.1 h
      obtain ⟨rest, hr, h⟩ := bind_ok.1 h
      exact ⟨⟨kept, hk⟩, rest, hr⟩
    · rintro ⟨⟨kept, hk⟩, rest, hr⟩
      exact ⟨_, bind_ok.2 ⟨kept, hk, bind_ok.2 ⟨rest, hr, rfl⟩⟩⟩

end LogAnalytics.Lib
