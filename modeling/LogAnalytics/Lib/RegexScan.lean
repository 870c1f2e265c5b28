import LogAnalytics.Lib.Regex
import Mathlib.Data.List.Forall2
/-!
# Scanning across a stop

A character that an expression does not take divides a text. Matches end before it, what is
behind it makes no difference to them, and the two sides can be scanned one after the other.
-/

namespace LogAnalytics.Lib.Regex

variable {α : Type} {isWord : α → Bool} {q : α}

/-- The expression does not take `q`, and ends before it as it does at the end of the text. -/
def avoids (q : α) : Regex α → Bool
  | empty => true
  | chars p => !p q
  | star p => !p q
  | seq r t => r.avoids q && t.avoids q
  | alt r t => r.avoids q && t.avoids q
  | rep _ _ _ r => r.avoids q
  | group _ r => r.avoids q
  | boundary => true
  | notBefore _ => true
  | notAfter p => !p q

/-- Nothing, or a text that begins with `q`. -/
def Stop (q : α) (e : List α) : Prop := ∀ c ∈ e.head?, c = q

/-- Two places with the same before the two stops. -/
structure Alike (e e' : List α) (s s' : Cursor α) : Prop where
  prev : s'.prev = s.prev
  groups : s'.groups = s.groups
  rest : ∃ x, s.rest = x ++ e ∧ s'.rest = x ++ e'

theorem stop_nil : Stop q ([] : List α) := nofun

theorem stop_cons (e : List α) : Stop q (q :: e) := fun _ hc => (Option.mem_some.1 hc).symm

theorem Stop.any {e : List α} (he : Stop q e) {p : α → Bool} (hp : p q = false) : e.head?.any p = false := by
  cases h : e.head? with
  | none => rfl
  | some c => rw [Option.any_some, he c h, hp]

theorem any_append {x e e' : List α} (he : Stop q e) (he' : Stop q e') {p : α → Bool} (hp : p q = false) :
    (x ++ e).head?.any p = (x ++ e').head?.any p := by
  cases x with
  | nil => rw [List.nil_append, List.nil_append, he.any hp, he'.any hp]
  | cons c x => rfl

theorem starFrom_stop {e : List α} (he : Stop q e) {p : α → Bool} (hp : p q = false) (groups : List (Nat × List α))
    (prev : Option α) : starFrom p groups prev e = [⟨prev, e, groups⟩] := by
  cases e with
  | nil => rfl
  | cons c e => rw [starFrom, he c rfl, hp, if_neg (by simp)]

theorem run_chars_stop {e : List α} (he : Stop q e) {p : α → Bool} (hp : p q = false) {s : Cursor α}
    (hs : s.rest = e) : (chars p).run isWord s = [] := by
  rw [run_chars, hs]
  cases e with
  | nil => rfl
  | cons c e =>
    simp only
    rw [he c rfl, hp, if_neg (by simp)]

/-- A character before the stops is taken at both places or at neither. -/
theorem chars_alike {e e' : List α} {p : α → Bool} {s s' : Cursor α} (h : Alike e e' s s') {c : α} {x : List α}
    (hx : s.rest = c :: x ++ e) : List.Forall₂ (Alike e e') ((chars p).run isWord s) ((chars p).run isWord s') := by
  obtain ⟨y, hy, hy'⟩ := h.rest
  obtain rfl : y = c :: x := List.append_cancel_right (hy.symm.trans hx)
  rw [run_chars, run_chars, hy, hy']
  simp only [List.cons_append]
  split
  · exact .cons ⟨rfl, h.groups, x, rfl, rfl⟩ .nil
  · exact .nil

theorem starFrom_alike {e e' : List α} (he : Stop q e) (he' : Stop q e') {p : α → Bool} (hp : p q = false)
    (groups : List (Nat × List α)) (x : List α) : ∀ prev,
    List.Forall₂ (Alike e e') (starFrom p groups prev (x ++ e)) (starFrom p groups prev (x ++ e')) := by
  induction x with
  | nil =>
    intro prev
    rw [List.nil_append, List.nil_append, starFrom_stop he hp, starFrom_stop he' hp]
    exact .cons ⟨rfl, rfl, [], rfl, rfl⟩ .nil
  | cons c x ih =>
    intro prev
    have hstay : Alike e e' ⟨prev, c :: x ++ e, groups⟩ ⟨prev, c :: x ++ e', groups⟩ := ⟨rfl, rfl, c :: x, rfl, rfl⟩
    simp only [List.cons_append, starFrom]
    split
    · exact List.rel_append (ih (some c)) (.cons hstay .nil)
    · exact .cons hstay .nil

theorem repeatFrom_alike {R : Cursor α → Cursor α → Prop} {f f' : Cursor α → List (Cursor α)}
    (hf : ∀ s s', R s s' → List.Forall₂ R (f s) (f' s')) (isLazy : Bool) (max : Nat) : ∀ min s s', R s s' →
    List.Forall₂ R (repeatFrom f isLazy min max s) (repeatFrom f' isLazy min max s') := by
  induction max with
  | zero =>
    intro min s s' h
    rw [repeatFrom, repeatFrom]
    split
    · exact .cons h .nil
    · exact .nil
  | succ max ih =>
    intro min s s' h
    have hmore := List.rel_flatMap (hf s s' h) (ih (min - 1))
    rw [repeatFrom, repeatFrom]
    split
    · exact hmore
    · split
      · exact .cons h hmore
      · exact List.rel_append hmore (.cons h .nil)

/-- The text of a group lies before the stops. -/
theorem group_alike {e e' : List α} {s s' t t' : Cursor α} (hs : Alike e e' s s') (ht : Alike e e' t t')
    (htaken : ∃ u, s.rest = u ++ t.rest) (index : Nat) :
    Alike e e' { t with groups := t.groups ++ [(index, s.rest.take (s.rest.length - t.rest.length))] }
      { t' with groups := t'.groups ++ [(index, s'.rest.take (s'.rest.length - t'.rest.length))] } := by
  obtain ⟨x, hx, hx'⟩ := hs.rest
  obtain ⟨y, hy, hy'⟩ := ht.rest
  obtain ⟨u, hu⟩ := htaken
  have hxy : x = u ++ y := by
    rw [hx, hy, ← List.append_assoc] at hu
    exact List.append_cancel_right hu
  have htake : ∀ d : List α, (x ++ d).take ((x ++ d).length - (y ++ d).length) = u := by
    intro d
    rw [hxy, List.append_assoc, List.length_append, Nat.add_sub_cancel, List.take_left]
  refine ⟨ht.prev, ?_, y, hy, hy'⟩
  rw [hx, hx', hy, hy', htake, htake, ht.groups]

/-- Groups that take texts before the stops are alike where what is in them is. -/
theorem groups_alike {e e' : List α} {R : Cursor α → Cursor α → Prop} {r : Regex α} {s s' : Cursor α}
    (hs : Alike e e' s s') (hR : ∀ t t', R t t' → Alike e e' t t')
    (h : List.Forall₂ R (r.run isWord s) (r.run isWord s')) (index : Nat) :
    List.Forall₂ (fun t t' => ∃ m m', R m m' ∧ t.rest = m.rest ∧ t'.rest = m'.rest ∧ Alike e e' t t')
      ((group index r).run isWord s) ((group index r).run isWord s') := by
  rw [run_group, run_group, List.forall₂_map_left_iff, List.forall₂_map_right_iff]
  have htaken : ∀ t ∈ r.run isWord s, ∃ u, s.rest = u ++ t.rest := fun t ht => by
    obtain ⟨u, hu, -⟩ := takes_any r s t ht
    exact ⟨u, hu⟩
  refine ((List.forall₂_and_left _ _).2 ⟨htaken, h⟩).imp ?_
  rintro t t' ⟨ht, hm⟩
  exact ⟨t, t', hm, rfl, rfl, group_alike hs (hR t t' hm) ht index⟩

/-- An expression that avoids the stop goes the same ways whatever is behind it. -/
theorem run_alike (hq : isWord q = false) {e e' : List α} (he : Stop q e) (he' : Stop q e') {r : Regex α}
    (hr : r.avoids q = true) : ∀ {s s' : Cursor α}, Alike e e' s s' →
    List.Forall₂ (Alike e e') (r.run isWord s) (r.run isWord s') := by
  induction r with
  | empty => exact fun h => .cons h .nil
  | chars p =>
    intro s s' h
    obtain ⟨x, hx, hx'⟩ := h.rest
    cases x with
    | nil =>
      have hp := (Bool.not_eq_true' _).mp hr
      rw [run_chars_stop he hp hx, run_chars_stop he' hp hx']
      exact .nil
    | cons c x => exact chars_alike h hx
  | star p =>
    intro s s' h
    obtain ⟨x, hx, hx'⟩ := h.rest
    rw [run_star, run_star, hx, hx', h.prev, h.groups]
    exact starFrom_alike he he' ((Bool.not_eq_true' _).mp hr) s.groups x s.prev
  | seq r t ihr iht =>
    intro s s' h
    have hrt := (Bool.and_eq_true ..).mp hr
    exact List.rel_flatMap (ihr hrt.1 h) fun _ _ => iht hrt.2
  | alt r t ihr iht =>
    intro s s' h
    have hrt := (Bool.and_eq_true ..).mp hr
    exact List.rel_append (ihr hrt.1 h) (iht hrt.2 h)
  | rep isLazy min max r ih => exact fun h => repeatFrom_alike (fun _ _ => ih hr) isLazy max min _ _ h
  | group index r ih =>
    intro s s' h
    refine (groups_alike h (fun _ _ => id) (ih hr h) index).imp ?_
    rintro t t' ⟨-, -, -, -, -, halike⟩
    exact halike
  | boundary =>
    intro s s' h
    obtain ⟨x, hx, hx'⟩ := h.rest
    rw [run_boundary, run_boundary, hx, hx', h.prev, any_append he he' hq]
    split
    · exact .cons h .nil
    · exact .nil
  | notBefore p =>
    intro s s' h
    rw [run_notBefore, run_notBefore, h.prev]
    split
    · exact .nil
    · exact .cons h .nil
  | notAfter p =>
    intro s s' h
    obtain ⟨x, hx, hx'⟩ := h.rest
    rw [run_notAfter, run_notAfter, hx, hx', any_append he he' ((Bool.not_eq_true' _).mp hr)]
    split
    · exact .nil
    · exact .cons h .nil

/-- An expression that avoids the stop does not get past it. -/
theorem rest_of_avoids (hq : isWord q = false) {r : Regex α} (hr : r.avoids q = true) {s : Cursor α} {x e : List α}
    (hs : s.rest = x ++ q :: e) : ∀ t ∈ r.run isWord s, ∃ y, t.rest = y ++ q :: e := by
  have hself : Alike (q :: e) (q :: e) s s := ⟨rfl, rfl, x, hs, hs⟩
  have hall : ∀ {l l' : List (Cursor α)}, List.Forall₂ (Alike (q :: e) (q :: e)) l l' →
      ∀ t ∈ l, ∃ y, t.rest = y ++ q :: e := by
    intro l l' h
    induction h with
    | nil => exact fun t ht => by cases ht
    | cons hR _ ih =>
      intro t ht
      rcases List.mem_cons.1 ht with rfl | ht
      · obtain ⟨y, hy, -⟩ := hR.rest
        exact ⟨y, hy⟩
      · exact ih t ht
  exact hall (run_alike hq (stop_cons e) (stop_cons e) hr hself)

/-- To take it comes before to do without. -/
theorem run_opt (r : Regex α) (s : Cursor α) : (opt r).run isWord s = r.run isWord s ++ [s] := by
  have hdone : repeatFrom (r.run isWord) false (0 - 1) 0 = fun t => [t] := rfl
  rw [opt, run_rep, repeatFrom, hdone, List.flatMap_singleton']
  rfl

/-! ## Particular ways -/

/-- The expression has no groups. -/
def groupless : Regex α → Bool
  | seq r t => r.groupless && t.groupless
  | alt r t => r.groupless && t.groupless
  | rep _ _ _ r => r.groupless
  | group _ _ => false
  | _ => true

theorem groups_of_groupless {r : Regex α} (hr : r.groupless = true) :
    ∀ s, ∀ t ∈ r.run isWord s, t.groups = s.groups := by
  induction r with
  | empty =>
    intro s t ht
    rw [List.mem_singleton.1 ht]
  | chars p =>
    intro s t ht
    rw [run_chars] at ht
    split at ht
    · cases ht
    · split at ht
      · rw [List.mem_singleton.1 ht]
      · cases ht
  | star p =>
    intro s t ht
    rw [run_star] at ht
    suffices h : ∀ (rest : List α) prev, t ∈ starFrom p s.groups prev rest → t.groups = s.groups from h _ _ ht
    intro rest
    induction rest with
    | nil =>
      intro prev h
      rw [List.mem_singleton.1 h]
    | cons c rest ih =>
      intro prev h
      rw [starFrom] at h
      split at h
      · rcases List.mem_append.1 h with h | h
        · exact ih _ h
        · rw [List.mem_singleton.1 h]
      · rw [List.mem_singleton.1 h]
  | seq r t ihr iht =>
    intro s c hc
    have hrt := (Bool.and_eq_true ..).mp hr
    obtain ⟨m, hm, hc⟩ := List.mem_flatMap.1 hc
    rw [iht hrt.2 m c hc, ihr hrt.1 s m hm]
  | alt r t ihr iht =>
    intro s c hc
    have hrt := (Bool.and_eq_true ..).mp hr
    rcases List.mem_append.1 hc with hc | hc
    · exact ihr hrt.1 s c hc
    · exact iht hrt.2 s c hc
  | rep isLazy min max r ih =>
    intro s t ht
    rw [run_rep] at ht
    induction max generalizing min s with
    | zero =>
      rw [repeatFrom] at ht
      split at ht
      · rw [List.mem_singleton.1 ht]
      · cases ht
    | succ max ihm =>
      have hmore : t ∈ (r.run isWord s).flatMap (repeatFrom (r.run isWord) isLazy (min - 1) max) →
          t.groups = s.groups := by
        intro h
        obtain ⟨m, hm, hmt⟩ := List.mem_flatMap.1 h
        rw [ihm (min - 1) hr m hmt, ih hr s m hm]
      rw [repeatFrom] at ht
      split at ht
      · exact hmore ht
      · split at ht
        · rcases List.mem_cons.1 ht with rfl | h
          · rfl
          · exact hmore h
        · rcases List.mem_append.1 ht with h | h
          · exact hmore h
          · rw [List.mem_singleton.1 h]
  | group index r _ => cases hr
  | boundary | notBefore p | notAfter p =>
    intro s t ht
    first | rw [run_boundary] at ht | rw [run_notBefore] at ht | rw [run_notAfter] at ht
    split at ht
    · first | rw [List.mem_singleton.1 ht] | cases ht
    · first | rw [List.mem_singleton.1 ht] | cases ht

/-- A way through one of the alternatives is one of the ways. -/
theorem mem_run_oneOf {rs : List (Regex α)} {r : Regex α} (hr : r ∈ rs) {s t : Cursor α} (ht : t ∈ r.run isWord s) :
    t ∈ (oneOf rs).run isWord s := by
  induction rs with
  | nil => cases hr
  | cons r' rs ih =>
    cases rs with
    | nil => exact List.mem_singleton.1 hr ▸ ht
    | cons r'' rs =>
      rcases List.mem_cons.1 hr with rfl | hr
      · exact List.mem_append_left _ ht
      · exact List.mem_append_right _ (ih hr)

theorem exists_run_row {ps : List (α → Bool)} {w : List α} (h : List.Forall₂ (fun p c => p c = true) ps w) :
    ∀ {s : Cursor α} {rest : List α}, s.rest = w ++ rest → ∃ t ∈ (row ps).run isWord s, t.rest = rest := by
  induction h with
  | nil => exact fun {s rest} hs => ⟨s, List.mem_singleton_self s, hs⟩
  | @cons p c ps w hp hps ih =>
    intro s rest hs
    have hfirst : (chars p).run isWord s = [⟨some c, w ++ rest, s.groups⟩] := by
      rw [run_chars, hs]
      exact if_pos hp
    cases hps with
    | nil => exact ⟨_, hfirst ▸ List.mem_singleton_self _, rfl⟩
    | cons hp' hps' =>
      obtain ⟨t, ht, hrest⟩ := ih (s := ⟨some c, _ ++ rest, s.groups⟩) rfl
      exact ⟨t, List.mem_flatMap.2 ⟨_, hfirst ▸ List.mem_singleton_self _, ht⟩, hrest⟩

/-- The first way of a repetition takes as many characters as there are. -/
theorem head_repeat {p : α → Bool} {x : List α} (hx : x.all p = true) {rest : List α} (hrest : rest.head?.any p = false) :
    ∀ {min max : Nat} {s : Cursor α}, s.rest = x ++ rest → min ≤ x.length → x.length ≤ max →
    ∃ t, (repeatFrom ((chars p).run isWord) false min max s).head? = some t ∧ t.rest = rest := by
  induction x with
  | nil =>
    intro min max s hs hmin _
    obtain rfl := Nat.le_zero.1 hmin
    refine ⟨s, ?_, hs⟩
    have hstuck : (chars p).run isWord s = [] := by
      rw [run_chars, hs, List.nil_append]
      cases rest with
      | nil => rfl
      | cons c rest => exact if_neg (by simpa using hrest)
    cases max with
    | zero => rfl
    | succ max =>
      rw [repeatFrom, hstuck]
      rfl
  | cons c x ih =>
    intro min max s hs hmin hmax
    rw [List.all_cons, Bool.and_eq_true] at hx
    rw [List.length_cons] at hmin hmax
    cases max with
    | zero => omega
    | succ max =>
      have hfirst : (chars p).run isWord s = [⟨some c, x ++ rest, s.groups⟩] := by
        rw [run_chars, hs]
        exact if_pos hx.1
      obtain ⟨t, ht, hrest⟩ : ∃ t, (repeatFrom ((chars p).run isWord) false (min - 1) max
          ⟨some c, x ++ rest, s.groups⟩).head? = some t ∧ t.rest = rest := ih hx.2 rfl (by omega) (by omega)
      refine ⟨t, ?_, hrest⟩
      rw [repeatFrom, hfirst, List.flatMap_singleton]
      split
      · exact ht
      · rw [if_neg (by simp), List.head?_append, ht]
        rfl

/-- The first way, if some part leads to none and every other has it for its first. -/
theorem head_flatMap {β : Type} {P : β → Prop} {f : Cursor α → List β} {l : List (Cursor α)}
    (h : ∀ c ∈ l, f c = [] ∨ ∃ t, (f c).head? = some t ∧ P t) (hsome : ∃ c ∈ l, f c ≠ []) :
    ∃ t, (l.flatMap f).head? = some t ∧ P t := by
  induction l with
  | nil =>
    obtain ⟨c, hc, -⟩ := hsome
    cases hc
  | cons c l ih =>
    rw [List.flatMap_cons]
    rcases h c List.mem_cons_self with hnil | ⟨t, ht, hP⟩
    · rw [hnil, List.nil_append]
      refine ih (fun d hd => h d (List.mem_cons_of_mem _ hd)) ?_
      obtain ⟨d, hd, hne⟩ := hsome
      rcases List.mem_cons.1 hd with rfl | hd
      · exact absurd hnil hne
      · exact ⟨d, hd, hne⟩
    · exact ⟨t, by rw [List.head?_append, ht]; rfl, hP⟩

/-! ## The scan -/

section

variable {r : Regex α} {template : Cursor α → List α}

/-- What `re.sub` makes of the text from a place on. -/
def subAt (isWord : α → Bool) (r : Regex α) (template : Cursor α → List α) (prev : Option α) (rest : List α) : List α :=
  subFrom isWord r template rest.length prev rest

theorem length_le_of_matchAt {prev : Option α} {rest : List α} {t : Cursor α}
    (h : r.matchAt isWord prev rest = some t) : t.rest.length ≤ rest.length := by
  have hrest := congrArg List.length (matchAt_taken (takes_any r) h).1
  rw [List.length_append] at hrest
  omega

theorem subFrom_fuel (fuel : Nat) : ∀ prev (rest : List α), rest.length ≤ fuel →
    subFrom isWord r template fuel prev rest = subAt isWord r template prev rest := by
  suffices h : ∀ fuel' prev (rest : List α), rest.length ≤ fuel → rest.length ≤ fuel' →
      subFrom isWord r template fuel prev rest = subFrom isWord r template fuel' prev rest from
    fun prev rest hlen => h _ prev rest hlen le_rfl
  induction fuel with
  | zero =>
    intro fuel' prev rest hlen _
    obtain rfl := List.length_eq_zero_iff.1 (Nat.le_zero.1 hlen)
    cases fuel' <;> rfl
  | succ fuel ih =>
    intro fuel' prev rest hlen hlen'
    cases rest with
    | nil => cases fuel' <;> rfl
    | cons c rest =>
      cases fuel' with
      | zero => simp at hlen'
      | succ fuel' =>
        simp only [List.length_cons, Nat.add_le_add_iff_right] at hlen hlen'
        rw [subFrom, subFrom]
        cases hm : r.matchAt isWord prev (c :: rest) with
        | none => simp only [ih fuel' (some c) rest hlen hlen']
        | some t =>
          simp only [ih fuel' (some c) rest hlen hlen']
          split
          · next hlt =>
            rw [List.length_cons] at hlt
            rw [ih fuel' t.prev t.rest (by omega) (by omega)]
          · rfl

theorem subAt_none {prev : Option α} {c : α} {rest : List α} (h : r.matchAt isWord prev (c :: rest) = none) :
    subAt isWord r template prev (c :: rest) = c :: subAt isWord r template (some c) rest := by
  rw [subAt, List.length_cons, subFrom, h]
  rfl

theorem subAt_some {prev : Option α} {c : α} {rest : List α} {t : Cursor α}
    (h : r.matchAt isWord prev (c :: rest) = some t) (hlt : t.rest.length < (c :: rest).length) :
    subAt isWord r template prev (c :: rest) = template t ++ subAt isWord r template t.prev t.rest := by
  rw [List.length_cons] at hlt
  rw [subAt, List.length_cons, subFrom, h]
  simp only [List.length_cons, if_pos hlt]
  rw [subFrom_fuel _ _ _ (by omega)]

theorem length_lt_of_matchAt (hne : r.Takes isWord (· ≠ [])) {prev : Option α} {rest : List α} {t : Cursor α}
    (h : r.matchAt isWord prev rest = some t) : t.rest.length < rest.length := by
  obtain ⟨hrest, htaken⟩ := matchAt_taken hne h
  have hlen := congrArg List.length hrest
  have hpos := List.length_pos_iff.2 htaken
  rw [List.length_append] at hlen
  omega

/-- The first ways are alike, or there are none. -/
theorem head_alike {R : Cursor α → Cursor α → Prop} {l l' : List (Cursor α)} (h : List.Forall₂ R l l') :
    (l.head? = none ∧ l'.head? = none) ∨ ∃ t t', l.head? = some t ∧ l'.head? = some t' ∧ R t t' := by
  cases h with
  | nil => exact .inl ⟨rfl, rfl⟩
  | cons hR _ => exact .inr ⟨_, _, rfl, rfl, hR⟩

theorem matchAt_stop (hq : isWord q = false) (hr : r.avoids q = true) (hne : r.Takes isWord (· ≠ [])) (prev : Option α)
    (b : List α) : r.matchAt isWord prev (q :: b) = none := by
  have hself : Alike (q :: b) (q :: b) ⟨prev, q :: b, []⟩ ⟨prev, q :: b, []⟩ := ⟨rfl, rfl, [], rfl, rfl⟩
  rcases head_alike (run_alike hq (stop_cons b) (stop_cons b) hr hself) with ⟨hnone, -⟩ | ⟨t, t', ht, -, htt'⟩
  · exact hnone
  · obtain ⟨x, hx, -⟩ := htt'.rest
    have hlt := length_lt_of_matchAt hne ht
    rw [hx, List.length_append] at hlt
    omega

/-- The two sides of a stop are scanned one after the other. -/
theorem subAt_append (hq : isWord q = false) (hr : r.avoids q = true) (hne : r.Takes isWord (· ≠ []))
    (hgroups : ∀ t t', t'.groups = t.groups → template t' = template t) (prev : Option α) (a b : List α) :
    subAt isWord r template prev (a ++ q :: b) =
      subAt isWord r template prev a ++ q :: subAt isWord r template (some q) b := by
  suffices h : ∀ n prev (a : List α), a.length ≤ n → subAt isWord r template prev (a ++ q :: b) =
      subAt isWord r template prev a ++ q :: subAt isWord r template (some q) b from h _ prev a le_rfl
  have hnil : ∀ prev, subAt isWord r template prev ([] ++ q :: b) =
      subAt isWord r template prev [] ++ q :: subAt isWord r template (some q) b := fun prev =>
    subAt_none (matchAt_stop hq hr hne prev b)
  intro n
  induction n with
  | zero =>
    intro prev a ha
    rw [List.length_eq_zero_iff.1 (Nat.le_zero.1 ha)]
    exact hnil prev
  | succ n ih =>
    intro prev a ha
    cases a with
    | nil => exact hnil prev
    | cons c a =>
      rw [List.length_cons, Nat.add_le_add_iff_right] at ha
      have hplaces : Alike (q :: b) [] ⟨prev, c :: (a ++ q :: b), []⟩ ⟨prev, c :: a, []⟩ :=
        ⟨rfl, rfl, c :: a, rfl, (List.append_nil _).symm⟩
      rcases head_alike (run_alike hq (stop_cons b) stop_nil hr hplaces) with ⟨hnone, hnone'⟩ | ⟨t, t', ht, ht', htt'⟩
      · rw [List.cons_append, subAt_none hnone, subAt_none hnone', ih (some c) a ha, List.cons_append]
      · obtain ⟨x, hx, hx'⟩ := htt'.rest
        rw [List.append_nil] at hx'
        have hlt := length_lt_of_matchAt hne ht'
        rw [hx', List.length_cons] at hlt
        rw [List.cons_append, subAt_some ht (length_lt_of_matchAt hne ht),
          subAt_some ht' (length_lt_of_matchAt hne ht'), hgroups t t' htt'.groups, htt'.prev, hx, hx',
          ih t.prev x (by omega), List.append_assoc]

/-- Where no match begins, the text stays. -/
theorem subAt_of_none {rest : List α} : ∀ {prev : Option α}, (∀ p ∈ places prev rest, r.matchAt isWord p.1 p.2 = none) →
    subAt isWord r template prev rest = rest := by
  induction rest with
  | nil => exact fun _ => rfl
  | cons c rest ih =>
    intro prev h
    rw [subAt_none (h (prev, c :: rest) List.mem_cons_self)]
    rw [ih fun p hp => h p (List.mem_cons_of_mem _ hp)]

/-- In a text that is too short for a match nothing is replaced. -/
theorem subAt_short {n : Nat} (h : r.Takes isWord (n ≤ ·.length)) {prev : Option α} {rest : List α}
    (hlen : rest.length < n) : subAt isWord r template prev rest = rest := by
  refine subAt_of_none fun p hp => Option.eq_none_iff_forall_ne_some.2 fun t ht => ?_
  have htaken := (matchAt_taken h ht).2
  have hsuffix := (mem_places hp).length_le
  rw [List.length_take] at htaken
  omega

end

end LogAnalytics.Lib.Regex
