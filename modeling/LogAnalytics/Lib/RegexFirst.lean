import LogAnalytics.Lib.RegexScan
/-!
# The match that is found first

Where every part of an expression goes on from what the part before it takes first, these first
ways are the match. `search` and `findall` look for matches in a text.
-/

namespace LogAnalytics.Lib

variable {α : Type}

/-- The text a group took last. -/
def Cursor.group? (t : Cursor α) (index : Nat) : Option (List α) := t.groups.reverse.lookup index

namespace Regex

section

variable (isWord : α → Bool)

/-- The first way leads from `text` to `rest` and takes these groups. -/
def Leads (r : Regex α) (text rest : List α) (taken : List (Nat × List α)) : Prop :=
  ∀ prev groups, ∃ last, (r.run isWord ⟨prev, text, groups⟩).head? = some ⟨last, rest, groups ++ taken⟩

/-- No way begins here. -/
def Fails (r : Regex α) (text : List α) : Prop := ∀ prev groups, r.run isWord ⟨prev, text, groups⟩ = []

/-- `re.search` -/
def search (r : Regex α) (text : List α) : Option (Cursor α) :=
  (places none text).findSome? fun p => r.matchAt isWord p.1 p.2

/-- The groups of the matches from a place on, the first `skip` characters belonging to the match
before. -/
def findallFrom (r : Regex α) : Nat → Option α → List α → List (List (Nat × List α))
  | _, _, [] => []
  | skip + 1, _, c :: rest => findallFrom r skip (some c) rest
  | 0, prev, c :: rest =>
    match r.matchAt isWord prev (c :: rest) with
    | none => findallFrom r 0 (some c) rest
    | some t => t.groups :: findallFrom r ((c :: rest).length - t.rest.length - 1) (some c) rest

/-- The groups of the matches `re.findall` goes through. -/
def findall (r : Regex α) (text : List α) : List (List (Nat × List α)) := findallFrom isWord r 0 none text

end

variable {isWord : α → Bool} {r s : Regex α} {a b c : List α} {g g' : List (Nat × List α)}

/-! ## The first way -/

theorem Leads.matchAt (h : r.Leads isWord a b g) (prev : Option α) :
    ∃ last, r.matchAt isWord prev a = some ⟨last, b, g⟩ := by
  obtain ⟨last, hlast⟩ := h prev []
  exact ⟨last, hlast⟩

theorem Fails.matchAt (h : r.Fails isWord a) (prev : Option α) : r.matchAt isWord prev a = none := by
  rw [Regex.matchAt, h prev []]
  rfl

theorem Leads.flatMap {f : Cursor α → List (Cursor α)} {l : List (Cursor α)} {m n : Cursor α} (hm : l.head? = some m)
    (hn : (f m).head? = some n) : (l.flatMap f).head? = some n := by
  obtain ⟨l, rfl⟩ := List.head?_eq_some_iff.1 hm
  rw [List.flatMap_cons, List.head?_append, hn]
  rfl

theorem Leads.seq (hr : r.Leads isWord a b g) (hs : s.Leads isWord b c g') : (seq r s).Leads isWord a c (g ++ g') := by
  intro prev groups
  obtain ⟨mid, hmid⟩ := hr prev groups
  obtain ⟨last, hlast⟩ := hs mid (groups ++ g)
  exact ⟨last, by rw [run_seq, Leads.flatMap hmid hlast, List.append_assoc]⟩

theorem Leads.left (hr : r.Leads isWord a b g) : (alt r s).Leads isWord a b g := by
  intro prev groups
  obtain ⟨last, hlast⟩ := hr prev groups
  refine ⟨last, ?_⟩
  rw [run_alt, List.head?_append, hlast]
  rfl

theorem Leads.right (hr : r.Fails isWord a) (hs : s.Leads isWord a b g) : (alt r s).Leads isWord a b g := by
  intro prev groups
  rw [run_alt, hr prev groups, List.nil_append]
  exact hs prev groups

theorem Leads.group (hr : r.Leads isWord (a ++ b) b g) (index : Nat) :
    (group index r).Leads isWord (a ++ b) b (g ++ [(index, a)]) := by
  intro prev groups
  obtain ⟨last, hlast⟩ := hr prev groups
  refine ⟨last, ?_⟩
  rw [run_group, List.head?_map, hlast, Option.map_some]
  simp

theorem leads_char {p : α → Bool} {d : α} (hd : p d = true) (rest : List α) :
    (chars p).Leads isWord (d :: rest) rest [] := fun prev groups => by
  refine ⟨some d, ?_⟩
  rw [run_chars, List.append_nil]
  exact congrArg List.head? (if_pos hd)

theorem fails_char {p : α → Bool} (h : a.head?.any p = false) : (chars p).Fails isWord a := fun prev groups => by
  rw [run_chars]
  cases a with
  | nil => rfl
  | cons d rest => exact if_neg (by simpa using h)

theorem leads_end (p : α → Bool) : (notAfter p).Leads isWord [] [] [] := fun prev groups =>
  ⟨prev, by rw [List.append_nil]; rfl⟩

theorem Fails.seq (h : r.Fails isWord a) : (seq r s).Fails isWord a := fun prev groups => by
  rw [run_seq, h prev groups]
  rfl

theorem Fails.rep (h : r.Fails isWord a) (isLazy : Bool) (min max : Nat) : (rep isLazy (min + 1) max r).Fails isWord a :=
  fun prev groups => by
    rw [run_rep]
    cases max with
    | zero => rfl
    | succ max =>
      rw [repeatFrom, h prev groups]
      rfl

/-- There is no match where no text it takes begins. -/
theorem Fails.of_takes {P : List α → Prop} (hr : r.Takes isWord P) (h : ∀ u, u <+: a → ¬P u) : r.Fails isWord a :=
  fun prev groups => List.eq_nil_iff_forall_not_mem.2 fun t ht => by
    obtain ⟨u, hu, hP⟩ := hr _ t ht
    exact h u ⟨t.rest, hu.symm⟩ hP

/-! ## Repetitions -/

theorem Leads.rep_stop (h : r.Fails isWord a) (max : Nat) : (rep false 0 max r).Leads isWord a a [] := fun prev groups => by
  refine ⟨prev, ?_⟩
  rw [run_rep, List.append_nil]
  cases max with
  | zero => rfl
  | succ max =>
    rw [repeatFrom, h prev groups]
    rfl

theorem Leads.rep_more {min max : Nat} (hr : r.Leads isWord a b g)
    (hmore : (rep false (min - 1) max r).Leads isWord b c g') :
    (rep false min (max + 1) r).Leads isWord a c (g ++ g') := fun prev groups => by
  obtain ⟨mid, hmid⟩ := hr prev groups
  obtain ⟨last, hlast⟩ := hmore mid (groups ++ g)
  have hfirst : ((r.run isWord ⟨prev, a, groups⟩).flatMap (repeatFrom (r.run isWord) false (min - 1) max)).head? =
      some ⟨last, c, groups ++ g ++ g'⟩ := Leads.flatMap hmid hlast
  refine ⟨last, ?_⟩
  rw [run_rep, repeatFrom, ← List.append_assoc]
  split
  · exact hfirst
  · rw [if_neg (by simp), List.head?_append, hfirst]
    rfl

theorem Leads.opt (hr : r.Leads isWord a b g) : (opt r).Leads isWord a b g := fun prev groups => by
  obtain ⟨last, hlast⟩ := hr prev groups
  refine ⟨last, ?_⟩
  rw [run_opt, List.head?_append, hlast]
  rfl

theorem Leads.opt_stop (h : r.Fails isWord a) : (Regex.opt r).Leads isWord a a [] := Leads.rep_stop h 1

/-- A repetition takes all the characters up to one that is not of the class. -/
theorem leads_chars {p : α → Bool} {rest : List α} (hrest : rest.head?.any p = false) :
    ∀ {min max : Nat} {x : List α}, x.all p = true → min ≤ x.length → x.length ≤ max →
      (rep false min max (chars p)).Leads isWord (x ++ rest) rest [] := by
  intro min max x
  induction x generalizing min max with
  | nil =>
    intro _ hmin _
    obtain rfl := Nat.le_zero.1 hmin
    exact Leads.rep_stop (fails_char hrest) max
  | cons d x ih =>
    intro hx hmin hmax
    rw [List.all_cons, Bool.and_eq_true] at hx
    rw [List.length_cons] at hmin hmax
    cases max with
    | zero => omega
    | succ max => exact Leads.rep_more (leads_char hx.1 _) (ih hx.2 (by omega) (by omega))

/-- Of blanks in front of another character all are taken. -/
theorem leads_star {p : α → Bool} {rest : List α} (hrest : rest.head?.any p = false) {x : List α} (hx : x.all p = true) :
    (star p).Leads isWord (x ++ rest) rest [] := fun prev groups => by
  rw [run_star, List.append_nil]
  induction x generalizing prev with
  | nil =>
    refine ⟨prev, ?_⟩
    rw [List.nil_append]
    cases rest with
    | nil => rfl
    | cons d rest => exact congrArg List.head? (if_neg (by simpa using hrest))
  | cons d x ih =>
    rw [List.all_cons, Bool.and_eq_true] at hx
    obtain ⟨last, hlast⟩ := ih hx.2 (some d)
    refine ⟨last, ?_⟩
    simp only [List.cons_append, starFrom, if_pos hx.1]
    rw [List.head?_append, hlast]
    rfl

/-! ## Looking for matches -/

theorem Leads.search (h : r.Leads isWord a b g) : ∃ last, r.search isWord a = some ⟨last, b, g⟩ := by
  obtain ⟨last, hlast⟩ := h.matchAt none
  refine ⟨last, ?_⟩
  cases a with
  | nil => rw [Regex.search, places, List.findSome?_singleton, hlast]
  | cons d rest => rw [Regex.search, places, List.findSome?_cons, hlast]

theorem search_none (h : ∀ t, t <:+ a → r.Fails isWord t) : r.search isWord a = none := by
  rw [Regex.search, List.findSome?_eq_none_iff]
  exact fun p hp => (h p.2 (mem_places hp)).matchAt p.1

theorem findallFrom_skip {skip : Nat} {prev : Option α} : ∀ {text : List α}, text.length ≤ skip →
    findallFrom isWord r skip prev text = [] := by
  intro text
  induction text generalizing skip prev with
  | nil =>
    intro _
    cases skip <;> rfl
  | cons d text ih =>
    intro hlen
    rw [List.length_cons] at hlen
    cases skip with
    | zero => omega
    | succ skip => exact ih (Nat.le_of_succ_le_succ hlen)

theorem findallFrom_stuck {prev : Option α} {d : α} {rest : List α} (h : r.matchAt isWord prev (d :: rest) = none) :
    findallFrom isWord r 0 prev (d :: rest) = findallFrom isWord r 0 (some d) rest := by
  rw [findallFrom, h]

theorem findallFrom_match {prev : Option α} {d : α} {rest : List α} {t : Cursor α}
    (h : r.matchAt isWord prev (d :: rest) = some t) :
    findallFrom isWord r 0 prev (d :: rest) =
      t.groups :: findallFrom isWord r ((d :: rest).length - t.rest.length - 1) (some d) rest := by
  rw [findallFrom, h]

/-- A text that is one match. -/
theorem findallFrom_whole (h : r.Leads isWord a [] g) (ha : a ≠ []) (prev : Option α) :
    findallFrom isWord r 0 prev a = [g] := by
  obtain ⟨last, hlast⟩ := h.matchAt prev
  cases a with
  | nil => exact absurd rfl ha
  | cons d rest =>
    rw [findallFrom_match hlast, findallFrom_skip (by simp)]

/-- The two sides of a stop are gone through one after the other. -/
theorem findallFrom_append {q : α} (hq : isWord q = false) (hr : r.avoids q = true) (hne : r.Takes isWord (· ≠ []))
    (b : List α) : ∀ {skip : Nat} {prev : Option α} {a : List α}, skip ≤ a.length →
    findallFrom isWord r skip prev (a ++ q :: b) =
      findallFrom isWord r skip prev a ++ findallFrom isWord r 0 (some q) b := by
  intro skip prev a
  induction a generalizing skip prev with
  | nil =>
    intro hskip
    obtain rfl := Nat.le_zero.1 hskip
    exact findallFrom_stuck (matchAt_stop hq hr hne prev b)
  | cons d a ih =>
    intro hskip
    cases skip with
    | succ skip => exact ih (Nat.le_of_succ_le_succ hskip)
    | zero =>
      have hplaces : Alike (q :: b) [] ⟨prev, d :: (a ++ q :: b), []⟩ ⟨prev, d :: a, []⟩ :=
        ⟨rfl, rfl, d :: a, rfl, (List.append_nil _).symm⟩
      rcases head_alike (run_alike hq (stop_cons b) stop_nil hr hplaces) with ⟨hnone, hnone'⟩ | ⟨t, t', ht, ht', htt'⟩
      · rw [List.cons_append, findallFrom_stuck hnone, findallFrom_stuck hnone', ih (Nat.zero_le _)]
      · obtain ⟨x, hx, hx'⟩ := htt'.rest
        rw [List.append_nil] at hx'
        -- What the match takes is the same on both sides.
        have hskip : (d :: (a ++ q :: b)).length - t.rest.length - 1 = (d :: a).length - t'.rest.length - 1 := by
          rw [hx, hx']
          simp only [List.length_cons, List.length_append]
          omega
        rw [List.cons_append, findallFrom_match ht, findallFrom_match ht', hskip, htt'.groups,
          ih (by simp only [List.length_cons]; omega), List.cons_append]

end Regex

end LogAnalytics.Lib
