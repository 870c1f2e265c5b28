import Mathlib.Data.List.Infix
/-!
# Regular expressions with backtracking

Expressions over any characters, matched the way a backtracking engine does: the ways to match
at a place, in the order the engine would try them, the first being its match. `isWord` says
which characters `\b` takes for word characters. What is proved of an expression is proved part
by part: every way to match takes a text, and the parts say what is in it.
-/

namespace LogAnalytics.Lib

variable {α : Type}

inductive Regex (α : Type) where
  | empty
  /-- One character. -/
  | chars (p : α → Bool)
  /-- As many characters as there are, or fewer. -/
  | star (p : α → Bool)
  | seq (r s : Regex α)
  | alt (r s : Regex α)
  /-- From `min` to `max` times, as often as possible or, if `isLazy`, as seldom. -/
  | rep (isLazy : Bool) (min max : Nat) (r : Regex α)
  | group (index : Nat) (r : Regex α)
  /-- `\b` -/
  | boundary
  /-- The character before is none of these. -/
  | notBefore (p : α → Bool)
  /-- The next character is none of these. -/
  | notAfter (p : α → Bool)

/-- A place in a text, with the groups matched on the way to it. -/
structure Cursor (α : Type) where
  prev : Option α
  rest : List α
  groups : List (Nat × List α) := []

namespace Regex

/-- These characters in a row. -/
def row : List (α → Bool) → Regex α
  | [] => empty
  | [p] => chars p
  | p :: ps => seq (chars p) (row ps)

/-- The first of these that leads to a match. -/
def oneOf : List (Regex α) → Regex α
  | [] => chars fun _ => false
  | [r] => r
  | r :: rs => alt r (oneOf rs)

/-- One after the other. -/
def all : List (Regex α) → Regex α
  | [] => empty
  | [r] => r
  | r :: rs => seq r (all rs)

/-- If possible. -/
def opt (r : Regex α) : Regex α := rep false 0 1 r

def starFrom (p : α → Bool) (groups : List (Nat × List α)) : Option α → List α → List (Cursor α)
  | prev, [] => [⟨prev, [], groups⟩]
  | prev, c :: rest =>
    if p c then starFrom p groups (some c) rest ++ [⟨prev, c :: rest, groups⟩] else [⟨prev, c :: rest, groups⟩]

def repeatFrom (f : Cursor α → List (Cursor α)) (isLazy : Bool) : Nat → Nat → Cursor α → List (Cursor α)
  | min, 0, s => if min = 0 then [s] else []
  | min, max + 1, s =>
    let more := (f s).flatMap (repeatFrom f isLazy (min - 1) max)
    if 0 < min then more else if isLazy then s :: more else more ++ [s]

variable (isWord : α → Bool)

/-- The ways to match, in the order they are tried. -/
def run : Regex α → Cursor α → List (Cursor α)
  | empty, s => [s]
  | chars p, s =>
    match s.rest with
    | [] => []
    | c :: rest => if p c then [⟨some c, rest, s.groups⟩] else []
  | star p, s => starFrom p s.groups s.prev s.rest
  | seq r t, s => (run r s).flatMap (run t)
  | alt r t, s => run r s ++ run t s
  | rep isLazy min max r, s => repeatFrom (run r) isLazy min max s
  | group index r, s =>
    (run r s).map fun t => { t with groups := t.groups ++ [(index, s.rest.take (s.rest.length - t.rest.length))] }
  | boundary, s => if s.prev.any isWord ≠ s.rest.head?.any isWord then [s] else []
  | notBefore p, s => if s.prev.any p then [] else [s]
  | notAfter p, s => if s.rest.head?.any p then [] else [s]

section

variable {isWord}

theorem run_chars (p : α → Bool) (s : Cursor α) :
    (chars p).run isWord s =
      match s.rest with
      | [] => []
      | c :: rest => if p c then [⟨some c, rest, s.groups⟩] else [] := rfl

theorem run_star (p : α → Bool) (s : Cursor α) : (star p).run isWord s = starFrom p s.groups s.prev s.rest := rfl

theorem run_seq (r t : Regex α) (s : Cursor α) : (seq r t).run isWord s = (r.run isWord s).flatMap (t.run isWord) := rfl

theorem run_alt (r t : Regex α) (s : Cursor α) : (alt r t).run isWord s = r.run isWord s ++ t.run isWord s := rfl

theorem run_rep (isLazy : Bool) (min max : Nat) (r : Regex α) (s : Cursor α) :
    (rep isLazy min max r).run isWord s = repeatFrom (r.run isWord) isLazy min max s := rfl

theorem run_group (index : Nat) (r : Regex α) (s : Cursor α) :
    (group index r).run isWord s = (r.run isWord s).map fun t =>
      { t with groups := t.groups ++ [(index, s.rest.take (s.rest.length - t.rest.length))] } := rfl

theorem run_boundary (s : Cursor α) :
    (boundary : Regex α).run isWord s = if s.prev.any isWord ≠ s.rest.head?.any isWord then [s] else [] := rfl

theorem run_notBefore (p : α → Bool) (s : Cursor α) :
    (notBefore p).run isWord s = if s.prev.any p then [] else [s] := rfl

theorem run_notAfter (p : α → Bool) (s : Cursor α) :
    (notAfter p).run isWord s = if s.rest.head?.any p then [] else [s] := rfl

end

/-- The match at a place, if there is one. -/
def matchAt (r : Regex α) (prev : Option α) (rest : List α) : Option (Cursor α) := (r.run isWord ⟨prev, rest, []⟩).head?

/-- The place after a match, or after one character of a match that took none. -/
def subFrom (r : Regex α) (template : Cursor α → List α) : Nat → Option α → List α → List α
  | 0, _, rest => rest
  | _ + 1, _, [] => []
  | fuel + 1, prev, c :: rest =>
    match r.matchAt isWord prev (c :: rest) with
    | none => c :: subFrom r template fuel (some c) rest
    | some t =>
      if t.rest.length < (c :: rest).length then template t ++ subFrom r template fuel t.prev t.rest
      else template t ++ c :: subFrom r template fuel (some c) rest

/-- `re.sub`: every match replaced, of an expression that matches no empty text. -/
def sub (r : Regex α) (template : Cursor α → List α) (text : List α) : List α :=
  subFrom isWord r template text.length none text

/-- The places of a text, each with what is before it. -/
def places : Option α → List α → List (Option α × List α)
  | prev, [] => [(prev, [])]
  | prev, c :: rest => (prev, c :: rest) :: places (some c) rest

/-- The text of the match at each place that has one. -/
def found (r : Regex α) (text : List α) : List (List α) :=
  (places none text).filterMap fun p =>
    (r.matchAt isWord p.1 p.2).map fun t => p.2.take (p.2.length - t.rest.length)

/-! ## What a match takes -/

/-- Every way to match takes a text with the property. -/
def Takes (r : Regex α) (P : List α → Prop) : Prop :=
  ∀ s, ∀ t ∈ r.run isWord s, ∃ u, s.rest = u ++ t.rest ∧ P u

variable {isWord}

theorem Takes.mono {r : Regex α} {P Q : List α → Prop} (h : r.Takes isWord P) (hPQ : ∀ u, P u → Q u) :
    r.Takes isWord Q := fun s t ht => by
  obtain ⟨u, hu, hP⟩ := h s t ht
  exact ⟨u, hu, hPQ u hP⟩

theorem takes_chars (p : α → Bool) : (chars p).Takes isWord fun u => ∃ c, u = [c] ∧ p c = true := by
  intro s t ht
  rw [run_chars] at ht
  split at ht
  · cases ht
  · next c rest hrest =>
    split at ht
    · next hp =>
      cases List.mem_singleton.1 ht
      exact ⟨[c], hrest, c, rfl, hp⟩
    · cases ht

theorem takes_star (p : α → Bool) : (star p).Takes isWord fun _ => True := by
  intro s t ht
  rw [run_star] at ht
  suffices h : ∀ rest prev, t ∈ starFrom p s.groups prev rest → ∃ u, rest = u ++ t.rest from
    (h _ _ ht).imp fun u hu => ⟨hu, trivial⟩
  intro rest
  induction rest with
  | nil =>
    intro prev h
    cases List.mem_singleton.1 h
    exact ⟨[], rfl⟩
  | cons c rest ih =>
    intro prev h
    rw [starFrom] at h
    split at h
    · rcases List.mem_append.1 h with h | h
      · obtain ⟨u, rfl⟩ := ih (some c) h
        exact ⟨c :: u, rfl⟩
      · cases List.mem_singleton.1 h
        exact ⟨[], rfl⟩
    · cases List.mem_singleton.1 h
      exact ⟨[], rfl⟩

theorem Takes.seq {r t : Regex α} {P Q : List α → Prop} (hr : r.Takes isWord P) (ht : t.Takes isWord Q) :
    (seq r t).Takes isWord fun w => ∃ u v, w = u ++ v ∧ P u ∧ Q v := by
  intro s c hc
  obtain ⟨m, hm, hc⟩ := List.mem_flatMap.1 hc
  obtain ⟨u, hu, hP⟩ := hr s m hm
  obtain ⟨v, hv, hQ⟩ := ht m c hc
  exact ⟨u ++ v, by rw [hu, hv, List.append_assoc], u, v, rfl, hP, hQ⟩

theorem Takes.alt {r t : Regex α} {P : List α → Prop} (hr : r.Takes isWord P) (ht : t.Takes isWord P) :
    (alt r t).Takes isWord P := by
  intro s c hc
  rcases List.mem_append.1 hc with hc | hc
  · exact hr s c hc
  · exact ht s c hc

theorem Takes.group {r : Regex α} {P : List α → Prop} (hr : r.Takes isWord P) (index : Nat) :
    (group index r).Takes isWord P := by
  intro s c hc
  obtain ⟨t, ht, rfl⟩ := List.mem_map.1 hc
  exact hr s t ht

theorem takes_boundary : (boundary : Regex α).Takes isWord fun u => u = [] := by
  intro s t ht
  rw [run_boundary] at ht
  split at ht
  · cases List.mem_singleton.1 ht
    exact ⟨[], rfl, rfl⟩
  · cases ht

theorem takes_notBefore (p : α → Bool) : (notBefore p).Takes isWord fun u => u = [] := by
  intro s t ht
  rw [run_notBefore] at ht
  split at ht
  · cases ht
  · cases List.mem_singleton.1 ht
    exact ⟨[], rfl, rfl⟩

theorem takes_notAfter (p : α → Bool) : (notAfter p).Takes isWord fun u => u = [] := by
  intro s t ht
  rw [run_notAfter] at ht
  split at ht
  · cases ht
  · cases List.mem_singleton.1 ht
    exact ⟨[], rfl, rfl⟩

theorem takes_empty : (empty : Regex α).Takes isWord fun u => u = [] := by
  intro s t ht
  cases List.mem_singleton.1 ht
  exact ⟨[], rfl, rfl⟩

/-- A repetition takes something each time. -/
theorem Takes.rep {r : Regex α} {P : List α → Prop} (hr : r.Takes isWord P) (isLazy : Bool) (min max : Nat) :
    (rep isLazy min max r).Takes isWord fun w => ∃ us : List (List α), w = us.flatten ∧ min ≤ us.length ∧ ∀ u ∈ us, P u := by
  intro s t ht
  rw [run_rep] at ht
  induction max generalizing min s with
  | zero =>
    rw [repeatFrom] at ht
    split at ht
    · next hmin =>
      cases List.mem_singleton.1 ht
      exact ⟨[], rfl, [], rfl, by simp [hmin], by simp⟩
    · cases ht
  | succ max ih =>
    have hmore : t ∈ (r.run isWord s).flatMap (repeatFrom (r.run isWord) isLazy (min - 1) max) →
        ∃ w, s.rest = w ++ t.rest ∧ ∃ us : List (List α), w = us.flatten ∧ min ≤ us.length ∧ ∀ u ∈ us, P u := by
      intro h
      obtain ⟨m, hm, hmt⟩ := List.mem_flatMap.1 h
      obtain ⟨u, hu, hP⟩ := hr s m hm
      obtain ⟨w, hw, us, rfl, hlen, hall⟩ := ih (min - 1) m hmt
      refine ⟨u ++ us.flatten, by rw [hu, hw, List.append_assoc], u :: us, rfl, ?_, ?_⟩
      · rw [List.length_cons]
        omega
      · intro v hv
        rcases List.mem_cons.1 hv with rfl | hv
        · exact hP
        · exact hall v hv
    have hstop : min = 0 → t = s → ∃ w, s.rest = w ++ t.rest ∧
        ∃ us : List (List α), w = us.flatten ∧ min ≤ us.length ∧ ∀ u ∈ us, P u := by
      rintro hmin rfl
      exact ⟨[], rfl, [], rfl, by simp [hmin], by simp⟩
    rw [repeatFrom] at ht
    split at ht
    · exact hmore ht
    · next hmin =>
      split at ht
      · rcases List.mem_cons.1 ht with h | h
        · exact hstop (by omega) h
        · exact hmore h
      · rcases List.mem_append.1 ht with h | h
        · exact hmore h
        · exact hstop (by omega) (List.mem_singleton.1 h)

theorem takes_any (r : Regex α) : r.Takes isWord fun _ => True := by
  induction r with
  | empty => exact takes_empty.mono fun _ _ => trivial
  | chars p => exact (takes_chars p).mono fun _ _ => trivial
  | star p => exact takes_star p
  | seq r t hr ht => exact (hr.seq ht).mono fun _ _ => trivial
  | alt r t hr ht => exact hr.alt ht
  | rep isLazy min max r hr => exact (hr.rep isLazy min max).mono fun _ _ => trivial
  | group index r hr => exact hr.group index
  | boundary => exact takes_boundary.mono fun _ _ => trivial
  | notBefore p => exact (takes_notBefore p).mono fun _ _ => trivial
  | notAfter p => exact (takes_notAfter p).mono fun _ _ => trivial

theorem takes_row (ps : List (α → Bool)) :
    (row ps).Takes isWord fun u => List.Forall₂ (fun p c => p c = true) ps u := by
  induction ps with
  | nil => exact takes_empty.mono fun u hu => hu ▸ .nil
  | cons p ps ih =>
    cases ps with
    | nil =>
      refine (takes_chars p).mono ?_
      rintro _ ⟨c, rfl, hc⟩
      exact .cons hc .nil
    | cons q ps =>
      refine ((takes_chars p).seq ih).mono ?_
      rintro _ ⟨_, v, rfl, ⟨c, rfl, hc⟩, hv⟩
      exact .cons hc hv

/-- Somewhere in the text is one with the property. -/
def Has (K : List α → Prop) (text : List α) : Prop := ∃ w, K w ∧ w <:+: text

theorem Has.append {K : List α → Prop} {text : List α} (h : Has K text) (a b : List α) : Has K (a ++ (text ++ b)) := by
  obtain ⟨w, hw, hin⟩ := h
  exact ⟨w, hw, hin.trans ⟨a, b, List.append_assoc ..⟩⟩

theorem Has.mono {K L : List α → Prop} {text : List α} (h : Has K text) (hKL : ∀ w, K w → L w) : Has L text := by
  obtain ⟨w, hw, hin⟩ := h
  exact ⟨w, hKL w hw, hin⟩

theorem Takes.has {r : Regex α} {K : List α → Prop} (h : r.Takes isWord K) : r.Takes isWord (Has K) :=
  h.mono fun u hu => ⟨u, hu, List.infix_refl u⟩

/-- What one of the parts takes is in what the whole takes. -/
theorem Takes.all_of_mem {rs : List (Regex α)} {r : Regex α} {K : List α → Prop} (hr : r ∈ rs)
    (h : r.Takes isWord (Has K)) : (all rs).Takes isWord (Has K) := by
  induction rs with
  | nil => cases hr
  | cons q rs ih =>
    cases rs with
    | nil =>
      rw [List.mem_singleton] at hr
      exact hr ▸ h
    | cons q' rs =>
      rcases List.mem_cons.1 hr with rfl | hr
      · refine (h.seq (takes_any (all (q' :: rs)))).mono ?_
        rintro _ ⟨u, v, rfl, hu, -⟩
        exact hu.append [] v
      · refine ((takes_any q).seq (ih hr)).mono ?_
        rintro _ ⟨u, v, rfl, -, hv⟩
        simpa using hv.append u []

/-- What the first three parts take in a row is in what the whole takes. -/
theorem takes_three {r s t q : Regex α} {rs : List (Regex α)} {P Q R : List α → Prop} (hr : r.Takes isWord P)
    (hs : s.Takes isWord Q) (ht : t.Takes isWord R) :
    (all (r :: s :: t :: q :: rs)).Takes isWord (Has fun w => ∃ a b c, w = a ++ b ++ c ∧ P a ∧ Q b ∧ R c) := by
  refine (hr.seq (hs.seq (ht.seq (takes_any (all (q :: rs)))))).mono ?_
  rintro _ ⟨a, _, rfl, ha, b, _, rfl, hb, c, d, rfl, hc, -⟩
  exact ⟨a ++ b ++ c, ⟨a, b, c, rfl, ha, hb, hc⟩, [], d, by simp⟩

theorem Takes.oneOf {rs : List (Regex α)} {P : List α → Prop} (h : ∀ r ∈ rs, r.Takes isWord P) :
    (oneOf rs).Takes isWord P := by
  induction rs with
  | nil =>
    refine (takes_chars _).mono ?_
    rintro _ ⟨c, -, hc⟩
    cases hc
  | cons q rs ih =>
    cases rs with
    | nil => exact h q List.mem_cons_self
    | cons q' rs =>
      exact (h q List.mem_cons_self).alt (ih fun r hr => h r (List.mem_cons_of_mem _ hr))

/-! ## Matches in a text -/

theorem mem_places {prev : Option α} {text : List α} {p : Option α × List α} (h : p ∈ places prev text) : p.2 <:+ text := by
  induction text generalizing prev with
  | nil => exact List.mem_singleton.1 h ▸ List.suffix_refl _
  | cons c rest ih =>
    rcases List.mem_cons.1 h with rfl | h
    · exact List.suffix_refl _
    · exact (ih h).trans (List.suffix_cons c rest)

theorem matchAt_taken {r : Regex α} {P : List α → Prop} (h : r.Takes isWord P) {prev : Option α} {rest : List α}
    {t : Cursor α} (ht : r.matchAt isWord prev rest = some t) :
    rest = rest.take (rest.length - t.rest.length) ++ t.rest ∧ P (rest.take (rest.length - t.rest.length)) := by
  obtain ⟨u, hu, hP⟩ := h _ t (List.mem_of_mem_head? ht)
  simp only at hu
  have htake : rest.take (rest.length - t.rest.length) = u := by
    rw [hu, List.length_append, Nat.add_sub_cancel, List.take_left]
  rw [htake]
  exact ⟨hu, hP⟩

/-- The text of a match is part of the text, and what every match takes. -/
theorem of_mem_found {r : Regex α} {P : List α → Prop} (h : r.Takes isWord P) {text x : List α}
    (hx : x ∈ r.found isWord text) : x <:+: text ∧ P x := by
  obtain ⟨p, hp, hx⟩ := List.mem_filterMap.1 hx
  obtain ⟨t, ht, rfl⟩ := Option.map_eq_some_iff.1 hx
  obtain ⟨hrest, hP⟩ := matchAt_taken h ht
  exact ⟨(List.take_prefix _ _).isInfix.trans (mem_places hp).isInfix, hP⟩

/-- Nothing is replaced where nothing matches. -/
theorem sub_of_found_nil {r : Regex α} (template : Cursor α → List α) {text : List α}
    (h : r.found isWord text = []) : r.sub isWord template text = text := by
  have hsub : ∀ fuel prev rest, (∀ p ∈ places prev rest, r.matchAt isWord p.1 p.2 = none) →
      subFrom isWord r template fuel prev rest = rest := by
    intro fuel
    induction fuel with
    | zero => intro prev rest _; rfl
    | succ fuel ih =>
      intro prev rest hnone
      cases rest with
      | nil => rfl
      | cons c rest =>
        rw [subFrom, hnone (prev, c :: rest) List.mem_cons_self]
        simp only
        rw [ih (some c) rest fun p hp => hnone p (List.mem_cons_of_mem _ hp)]
  refine hsub _ _ _ fun p hp => ?_
  rw [found, List.filterMap_eq_nil_iff] at h
  simpa using h p hp

end Regex

end LogAnalytics.Lib
