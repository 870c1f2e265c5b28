import Mathlib.Data.List.Basic
/-!
# Runs of a step function

A system is a partial step function: an input, chosen by the surroundings, takes a state to
the next one and shows a list of observations; `none` means that the input is not possible
there. A theorem about every list of inputs is a theorem about every interleaving. The
rules here turn what one step keeps into what a whole run keeps.
-/

namespace LogAnalytics.Lib

variable {σ ι ο : Type*}

/-- The state after the inputs, and everything the steps showed. -/
def runs (step : σ → ι → Option (σ × List ο)) : σ → List ι → Option (σ × List ο)
  | s, [] => some (s, [])
  | s, x :: xs =>
    match step s x with
    | none => none
    | some (s', o) => (runs step s' xs).map (fun r => (r.1, o ++ r.2))

/-- `ok` holds of every step the run takes, in the state it is taken from. -/
def Throughout (ok : σ → ι → Prop) (step : σ → ι → Option (σ × List ο)) : σ → List ι → Prop
  | _, [] => True
  | s, x :: xs => ok s x ∧ ∀ s' o, step s x = some (s', o) → Throughout ok step s' xs

variable {step : σ → ι → Option (σ × List ο)}

theorem runs_cons {s t : σ} {x : ι} {xs : List ι} {tr : List ο} (h : runs step s (x :: xs) = some (t, tr)) :
    ∃ s' o os, step s x = some (s', o) ∧ runs step s' xs = some (t, os) ∧ tr = o ++ os := by
  rw [runs] at h
  cases hs : step s x with
  | none => simp [hs] at h
  | some r =>
    obtain ⟨s', o⟩ := r
    simp only [hs, Option.map_eq_some_iff, Prod.mk.injEq] at h
    obtain ⟨⟨t', os⟩, hr, rfl, rfl⟩ := h
    exact ⟨s', o, os, rfl, hr, rfl⟩

theorem throughout_cons {ok : σ → ι → Prop} {s s' : σ} {x : ι} {o : List ο} {xs : List ι} (hs : step s x = some (s', o))
    (hok : ok s x) (h : Throughout ok step s' xs) : Throughout ok step s (x :: xs) := by
  refine ⟨hok, fun t p ht => ?_⟩
  rw [hs] at ht
  cases ht
  exact h

/-- A run can be cut in two. -/
theorem runs_append {s t : σ} {xs ys : List ι} {tr : List ο} (h : runs step s (xs ++ ys) = some (t, tr)) :
    ∃ r o os, runs step s xs = some (r, o) ∧ runs step r ys = some (t, os) ∧ tr = o ++ os := by
  induction xs generalizing s tr with
  | nil => exact ⟨s, [], tr, rfl, h, rfl⟩
  | cons x xs ih =>
    obtain ⟨s', o, os, hs, hr, rfl⟩ := runs_cons h
    obtain ⟨r, p, ps, hp, hps, rfl⟩ := ih hr
    refine ⟨r, o ++ p, ps, ?_, hps, (List.append_assoc ..).symm⟩
    rw [runs]
    simp only [hs, hp, Option.map_some]

theorem throughout_append {ok : σ → ι → Prop} {s r : σ} {xs ys : List ι} {o : List ο}
    (hok : Throughout ok step s (xs ++ ys)) (h : runs step s xs = some (r, o)) :
    Throughout ok step s xs ∧ Throughout ok step r ys := by
  induction xs generalizing s o with
  | nil =>
    cases h
    exact ⟨trivial, hok⟩
  | cons x xs ih =>
    obtain ⟨s', p, ps, hs, hr, -⟩ := runs_cons h
    obtain ⟨hxs, hys⟩ := ih (hok.2 s' p hs) hr
    exact ⟨throughout_cons hs hok.1 hxs, hys⟩

/-- An invariant of the state and the observations so far, kept by every step that meets
`ok`, holds after every run whose steps all meet `ok`. -/
theorem runs_inv_of (ok : σ → ι → Prop) (I : σ → List ο → Prop)
    (hstep : ∀ s x s' o tr, I s tr → ok s x → step s x = some (s', o) → I s' (tr ++ o)) :
    ∀ (xs : List ι) (s t : σ) (pre tr : List ο), I s pre → Throughout ok step s xs →
      runs step s xs = some (t, tr) → I t (pre ++ tr) := by
  intro xs
  induction xs with
  | nil =>
    intro s t pre tr hI _ h
    simp only [runs, Option.some.injEq, Prod.mk.injEq] at h
    obtain ⟨rfl, rfl⟩ := h
    simpa using hI
  | cons x xs ih =>
    intro s t pre tr hI hok h
    obtain ⟨s', o, os, hs, hr, rfl⟩ := runs_cons h
    rw [← List.append_assoc]
    exact ih s' t (pre ++ o) os (hstep s x s' o pre hI hok.1 hs) (hok.2 s' o hs) hr

theorem throughout_true (xs : List ι) : ∀ s : σ, Throughout (fun _ _ => True) step s xs := by
  induction xs with
  | nil => intro _; trivial
  | cons x xs ih => intro s; exact ⟨trivial, fun s' _ _ => ih s'⟩

/-- An invariant kept by every step holds after every run. -/
theorem runs_inv (I : σ → List ο → Prop)
    (hstep : ∀ s x s' o tr, I s tr → step s x = some (s', o) → I s' (tr ++ o))
    {xs : List ι} {s t : σ} {tr : List ο} (h0 : I s []) (h : runs step s xs = some (t, tr)) : I t tr := by
  simpa using runs_inv_of (fun _ _ => True) I (fun s x s' o tr hI _ hs => hstep s x s' o tr hI hs)
    xs s t [] tr h0 (throughout_true xs s) h

/-! ## The order of the observations -/

/-- The last of some observations in this order is the newest one or was there before. -/
theorem snoc_sublist_snoc {l tr : List ο} {x y : ο} :
    (l ++ [x]).Sublist (tr ++ [y]) ↔ (l ++ [x]).Sublist tr ∨ x = y ∧ l.Sublist tr := by
  have hsnoc (t : List ο) (z : ο) : t ++ [z] = (z :: t.reverse).reverse := by simp
  rw [hsnoc l x, hsnoc tr y, List.reverse_sublist, List.cons_sublist_cons', List.reverse_sublist,
    List.sublist_reverse_iff]

/-- What does not end in the newest observation was there before. -/
theorem older {l tr : List ο} {x y : ο} (h : (l ++ [x]).Sublist (tr ++ [y])) (hne : x ≠ y) : (l ++ [x]).Sublist tr :=
  (snoc_sublist_snoc.1 h).resolve_right fun hlast => hne hlast.1

/-- One of the observations, after a new one, is the new one or was there before. -/
theorem snoc_eq_append_cons {tr before later : List ο} {x y : ο} (h : tr ++ [y] = before ++ x :: later) :
    (later = [] ∧ y = x ∧ tr = before) ∨ ∃ l, later = l ++ [y] ∧ tr = before ++ x :: l := by
  rcases List.eq_nil_or_concat later with rfl | ⟨l, z, rfl⟩
  · obtain ⟨rfl, rfl⟩ := List.append_singleton_inj.1 h
    exact .inl ⟨rfl, rfl, rfl⟩
  · rw [List.concat_eq_append, ← List.cons_append, ← List.append_assoc, List.append_singleton_inj] at h
    exact .inr ⟨l, by rw [h.2, List.concat_eq_append], h.1⟩

theorem one_sublist_snoc {tr : List ο} {x y : ο} : [x].Sublist (tr ++ [y]) ↔ [x].Sublist tr ∨ x = y := by
  simp

theorem two_sublist_snoc {tr : List ο} {w x y : ο} :
    [w, x].Sublist (tr ++ [y]) ↔ [w, x].Sublist tr ∨ x = y ∧ [w].Sublist tr := snoc_sublist_snoc (l := [w])

theorem four_sublist_snoc {tr : List ο} {u v w x y : ο} :
    [u, v, w, x].Sublist (tr ++ [y]) ↔ [u, v, w, x].Sublist tr ∨ x = y ∧ [u, v, w].Sublist tr :=
  snoc_sublist_snoc (l := [u, v, w])

end LogAnalytics.Lib
