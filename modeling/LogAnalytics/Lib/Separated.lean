import Mathlib.Data.List.Chain
import Mathlib.Data.List.TakeWhile
/-!
# Parts with a separator between them

When the parts of a text can be told from the text, although they may hold the separator too:
for a row of parts, and for values that stand behind their labels.
-/

namespace LogAnalytics.Lib

variable {α : Type} {sep : α}

/-- Two texts with a separator in them: it is the same one, or one of them has it earlier. -/
theorem append_separator {v w x y : List α} (h : v ++ sep :: x = w ++ sep :: y) :
    (v = w ∧ x = y) ∨ (∃ t, w = v ++ sep :: t ∧ x = t ++ sep :: y) ∨ ∃ t, v = w ++ sep :: t ∧ y = t ++ sep :: x := by
  obtain ⟨more, rfl, hx⟩ | ⟨more, rfl, hy⟩ := List.append_eq_append_iff.1 h
  · cases more with
    | nil => exact .inl ⟨(List.append_nil _).symm, (List.cons.inj hx).2⟩
    | cons c t =>
      obtain ⟨rfl, rfl⟩ := List.cons.inj hx
      exact .inr (.inl ⟨t, rfl, rfl⟩)
  · cases more with
    | nil => exact .inl ⟨List.append_nil _, (List.cons.inj hy).2.symm⟩
    | cons c t =>
      obtain ⟨rfl, rfl⟩ := List.cons.inj hy
      exact .inr (.inr ⟨t, rfl, rfl⟩)

/-- The separator that has none behind it is in one place. -/
theorem append_last_inj {v w x y : List α} (hx : sep ∉ x) (hy : sep ∉ y) (h : v ++ sep :: x = w ++ sep :: y) :
    v = w ∧ x = y := by
  rcases append_separator h with hboth | ⟨t, -, rfl⟩ | ⟨t, -, rfl⟩
  · exact hboth
  · simp at hx
  · simp at hy

theorem mem_intercalate (parts : List (List α)) (h : 2 ≤ parts.length) : sep ∈ [sep].intercalate parts := by
  match parts, h with
  | first :: second :: rest, _ =>
    rw [List.intercalate_cons_cons]
    simp

theorem notMem_of_mem_splitOn [BEq α] [LawfulBEq α] {s part : List α} (h : part ∈ s.splitOn sep) : sep ∉ part := by
  induction s generalizing part with
  | nil =>
    rw [List.splitOn_nil, List.mem_singleton] at h
    exact h ▸ List.not_mem_nil
  | cons c s ih =>
    rw [List.splitOn_cons_eq_if_modifyHead] at h
    split at h
    · rcases List.mem_cons.1 h with rfl | h
      · exact List.not_mem_nil
      · exact ih h
    · next hne =>
      obtain ⟨first, rest, hparts⟩ := List.exists_cons_of_ne_nil (List.splitOn_ne_nil sep s)
      rw [hparts, List.modifyHead_cons] at h
      rcases List.mem_cons.1 h with rfl | h
      · rw [List.mem_cons, not_or]
        refine ⟨fun heq => hne (by simp [heq]), @ih first ?_⟩
        rw [hparts]
        exact List.mem_cons_self
      · exact ih (hparts ▸ List.mem_cons_of_mem _ h)

/-! ## The part behind the last separator -/

section
variable [DecidableEq α]

/-- What stands behind the last separator; all of a text that has none. -/
def lastPart (sep : α) (s : List α) : List α := (s.reverse.takeWhile (· ≠ sep)).reverse

theorem notMem_lastPart (sep : α) (s : List α) : sep ∉ lastPart sep s := by
  intro h
  have hsep := List.mem_takeWhile_imp (List.mem_reverse.1 h)
  simp at hsep

theorem lastPart_append (p : List α) {q : List α} (hq : sep ∉ q) : lastPart sep (p ++ sep :: q) = q := by
  have hall : ∀ c ∈ q.reverse, decide (c ≠ sep) = true := by
    intro c hc
    have hne : c ≠ sep := fun heq => hq (heq ▸ List.mem_reverse.1 hc)
    simpa using hne
  unfold lastPart
  rw [List.reverse_append, List.reverse_cons, List.append_assoc, List.takeWhile_append_of_pos hall]
  simp

theorem exists_lastPart {s : List α} (h : sep ∈ s) : ∃ p, s = p ++ sep :: lastPart sep s := by
  -- the first separator of the reversed text is the last of the text
  obtain ⟨r, t, hrev, hfree⟩ : ∃ r t, s.reverse = r ++ sep :: t ∧ sep ∉ r :=
    List.eq_append_cons_of_mem (List.mem_reverse.2 h)
  have hs : s = t.reverse ++ sep :: r.reverse := by
    rw [← List.reverse_reverse s, hrev]
    simp
  have hlast : lastPart sep s = r.reverse := by rw [hs, lastPart_append _ (by simpa using hfree)]
  exact ⟨t.reverse, hlast ▸ hs⟩

end

/-! ## Labelled values -/

/-- Labels and their values in turn. -/
def labelled (sep : α) (ps : List (List α × List α)) : List α := [sep].intercalate (ps.flatMap fun p => [p.1, p.2])

theorem labelled_singleton (p : List α × List α) : labelled sep [p] = p.1 ++ sep :: p.2 := by simp [labelled]

theorem labelled_cons (p q : List α × List α) (ps : List (List α × List α)) :
    labelled sep (p :: q :: ps) = p.1 ++ sep :: (p.2 ++ sep :: labelled sep (q :: ps)) := by simp [labelled]

theorem exists_labelled (sep : α) (p : List α × List α) (ps : List (List α × List α)) :
    ∃ more, labelled sep (p :: ps) = p.1 ++ sep :: (p.2 ++ more) := by
  cases ps with
  | nil => exact ⟨[], by rw [labelled_singleton, List.append_nil]⟩
  | cons q ps => exact ⟨_, labelled_cons p q ps⟩

/-- A label stands between its own value and the one before it in one place only. -/
def Placed (sep : α) (p q : List α × List α) : Prop :=
  ∀ v w, p.2 ++ sep :: (q.1 ++ sep :: q.2) = v ++ sep :: (q.1 ++ sep :: w) → v = p.2

/-- No value has its label in it behind a separator, with more behind another. -/
def NotLater (sep : α) (q : List α × List α) : Prop := ∀ t w, q.1 ++ sep :: q.2 ≠ t ++ sep :: (q.1 ++ sep :: w)

theorem Placed.notLater {p q : List α × List α} (h : Placed sep p q) : NotLater sep q := by
  intro t w heq
  have hlater := h (p.2 ++ sep :: t) w (by rw [heq, List.append_assoc, List.cons_append])
  have hlen := congrArg List.length hlater
  simp at hlen

theorem notLater_of_isChain {p : List α × List α} {ps : List (List α × List α)} (h : (p :: ps).IsChain (Placed sep)) :
    ∀ q ∈ ps, NotLater sep q := by
  induction ps generalizing p with
  | nil => exact nofun
  | cons q ps ih =>
    obtain ⟨hplaced, hchain⟩ := List.isChain_cons_cons.1 h
    exact List.forall_mem_cons.2 ⟨hplaced.notLater, ih hchain⟩

/-- Without a separator in the values every label is in its place. -/
theorem Placed.of_not_mem {p q : List α × List α} (hp : sep ∉ p.2) (hq : sep ∉ q.2) : Placed sep p q := by
  classical
  intro v w h
  obtain ⟨hv, -⟩ | ⟨t, ht, heq⟩ | ⟨t, ht, -⟩ := append_separator h
  · exact hv.symm
  · -- There are more separators on the right.
    have hcount := congrArg (List.count sep) heq
    simp only [List.count_append, List.count_cons_self, List.count_eq_zero_of_not_mem hq] at hcount
    omega
  · rw [ht] at hp
    exact absurd (by simp) hp

/-- Values do not begin later under the same labels. -/
theorem labelled_ne_append {ps : List (List α × List α)} (hne : ps ≠ []) (h : ∀ p ∈ ps, NotLater sep p) :
    ∀ {qs : List (List α × List α)}, qs.map Prod.fst = ps.map Prod.fst →
      ∀ t, labelled sep ps ≠ t ++ sep :: labelled sep qs := by
  induction ps with
  | nil => exact absurd rfl hne
  | cons p ps ih =>
    intro qs hlabels t heq
    obtain ⟨q, qs, rfl⟩ : ∃ q qs', qs = q :: qs' := List.exists_cons_of_ne_nil (by rintro rfl; cases hlabels)
    obtain ⟨hlabel, hrest⟩ := List.cons.inj hlabels
    cases ps with
    | nil =>
      obtain rfl := List.map_eq_nil_iff.1 hrest
      rw [labelled_singleton, labelled_singleton, hlabel] at heq
      exact h p List.mem_cons_self t q.2 heq
    | cons p' ps =>
      obtain ⟨q', qs, rfl⟩ : ∃ q' qs', qs = q' :: qs' := List.exists_cons_of_ne_nil (by rintro rfl; cases hrest)
      have hstep := fun t' => ih (List.cons_ne_nil _ _) (fun p hp => h p (List.mem_cons_of_mem _ hp)) hrest t'
      rw [labelled_cons, labelled_cons, hlabel] at heq
      -- The next label is later on the right too, or the value has this one in it.
      have hsplit : (p.1 ++ sep :: p.2) ++ sep :: labelled sep (p' :: ps) =
          (t ++ sep :: p.1) ++ sep :: (q.2 ++ sep :: labelled sep (q' :: qs)) := by simpa using heq
      obtain ⟨-, hrest'⟩ | ⟨t', -, hlater⟩ | ⟨t', hin, -⟩ := append_separator hsplit
      · exact hstep q.2 hrest'
      · exact hstep (t' ++ sep :: q.2) (by rw [hlater, List.append_assoc, List.cons_append])
      · refine h p List.mem_cons_self t t' ?_
        rw [hin, List.append_assoc, List.cons_append]

/-- Where every label can be placed in one way, the text has one row of values. -/
theorem labelled_inj {ps : List (List α × List α)} (h : ps.IsChain (Placed sep)) :
    ∀ {qs : List (List α × List α)}, qs.map Prod.fst = ps.map Prod.fst → labelled sep ps = labelled sep qs → ps = qs := by
  induction ps with
  | nil =>
    intro qs hlabels _
    exact (List.map_eq_nil_iff.1 hlabels).symm
  | cons p ps ih =>
    intro qs hlabels heq
    obtain ⟨q, qs, rfl⟩ : ∃ q qs', qs = q :: qs' := List.exists_cons_of_ne_nil (by rintro rfl; cases hlabels)
    obtain ⟨hlabel, hrest⟩ := List.cons.inj hlabels
    cases ps with
    | nil =>
      obtain rfl := List.map_eq_nil_iff.1 hrest
      rw [labelled_singleton, labelled_singleton, hlabel] at heq
      have hvalue : p.2 = q.2 := (List.cons.inj (List.append_cancel_left heq)).2
      rw [Prod.ext hlabel.symm hvalue]
    | cons p' ps =>
      obtain ⟨q', qs, rfl⟩ : ∃ q' qs', qs = q' :: qs' := List.exists_cons_of_ne_nil (by rintro rfl; cases hrest)
      obtain ⟨hplaced, hchain⟩ := List.isChain_cons_cons.1 h
      have hlabel' : q'.1 = p'.1 := (List.cons.inj hrest).1
      rw [labelled_cons, labelled_cons, hlabel] at heq
      have hvalues := (List.cons.inj (List.append_cancel_left heq)).2
      obtain ⟨hvalue, htail⟩ | ⟨t, -, hlater⟩ | ⟨t, hin, hlater⟩ := append_separator hvalues
      · rw [ih hchain hrest htail, Prod.ext hlabel.symm hvalue]
      · exact absurd hlater (labelled_ne_append (List.cons_ne_nil _ _) (notLater_of_isChain h) hrest t)
      · obtain ⟨more, hmore⟩ := exists_labelled sep q' qs
        obtain ⟨more', hmore'⟩ := exists_labelled sep p' ps
        rw [hmore, hmore', hlabel'] at hlater
        have hlonger : ∀ y : List α, p'.1 ≠ t ++ sep :: (p'.1 ++ y) := fun y hy => by
          have hlen := congrArg List.length hy
          simp only [List.length_append, List.length_cons] at hlen
          omega
        -- The label is behind the shorter value too.
        have hsplit : p'.1 ++ sep :: (q'.2 ++ more) = (t ++ sep :: p'.1) ++ sep :: (p'.2 ++ more') := by simpa using hlater
        obtain ⟨heq, -⟩ | ⟨w, hw, -⟩ | ⟨w, hw, -⟩ := append_separator hsplit
        · exact absurd (by rw [List.append_nil]; exact heq) (hlonger [])
        · have hmoved := congrArg (q.2 ++ sep :: · ++ sep :: p'.2) hw
          have hearlier := hplaced q.2 (w ++ sep :: p'.2) (by simpa [hin] using hmoved)
          rw [← hearlier] at hin
          have hlen := congrArg List.length hin
          simp at hlen
        · exact absurd (by simpa using hw) (hlonger (sep :: w))

/-- Where a label can be placed in two ways, so can the two values beside it. -/
theorem labelled_congr {pre : List (List α × List α)} {p p' q q' : List α × List α} (hp : p.1 = p'.1)
    (h : p.2 ++ sep :: (q.1 ++ sep :: q.2) = p'.2 ++ sep :: (q'.1 ++ sep :: q'.2)) (post : List (List α × List α)) :
    labelled sep (pre ++ p :: q :: post) = labelled sep (pre ++ p' :: q' :: post) := by
  induction pre with
  | nil =>
    rw [List.nil_append, List.nil_append, labelled_cons, labelled_cons, hp]
    cases post with
    | nil => rw [labelled_singleton, labelled_singleton, h]
    | cons r post =>
      rw [labelled_cons, labelled_cons]
      have hmore := congrArg (· ++ sep :: labelled sep (r :: post)) h
      simp only [List.append_assoc, List.cons_append] at hmore
      rw [hmore]
  | cons r pre ih =>
    have hcons : ∀ ps : List (List α × List α), ps ≠ [] →
        labelled sep (r :: ps) = r.1 ++ sep :: (r.2 ++ sep :: labelled sep ps) := fun ps hne => by
      obtain ⟨x, xs, rfl⟩ := List.exists_cons_of_ne_nil hne
      exact labelled_cons r x xs
    rw [List.cons_append, List.cons_append, hcons _ (by simp), hcons _ (by simp), ih]

end LogAnalytics.Lib
