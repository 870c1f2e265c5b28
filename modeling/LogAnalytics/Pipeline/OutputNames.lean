import LogAnalytics.Lib.Digits
import LogAnalytics.Lib.Separated
import LogAnalytics.SafeNames
import LogAnalytics.Storage.Parquet
/-!
# The output files of a parallel run

`process_parallel` gives the run of its `index`-th file the run id of the job, a hyphen and the
index in three digits, and a store names its files by `safe_filename` of that. The index comes
last: it survives the cleaning, but not a cut at 48 characters, nor a base that reads as a device
name up to its first dot.
-/
open LogAnalytics.Lib

namespace LogAnalytics

/-- What `unicodedata.normalize` and `str.upper` do to a text with more behind it: no ASCII
character composes with what stands before it, and a character's upper case is its own. -/
structure Unicode.Piecewise (u : Unicode) : Prop where
  nfkc_append : ∀ s t, (∀ c ∈ t.toList, c.val < 128) → u.nfkc (s ++ t) = u.nfkc s ++ t
  upper_append : ∀ s t, u.upper (s ++ t) = u.upper s ++ u.upper t

namespace ParallelRun

/-- `f"{opts.run_id}-{index:03d}"` -/
def fileRunId (runId : String) (index : Nat) : String := runId ++ "-" ++ String.ofList (zeroPad 3 index)

/-- `safe_filename(run_id, fallback="adhoc", max_length=48)` for the run of one file. -/
def fileStem (u : Unicode) (runId : String) (index : Nat) : String :=
  Paths.safeFilename u "adhoc" 48 (fileRunId runId index)

/-- The base as `safe_filename` cleans it; nothing is stripped on the right, where the index is. -/
def cleaned (u : Unicode) (runId : String) : List Char :=
  (((u.nfkc runId).toList.dropWhile isSpace).map fun c => if Paths.isUnsafe c then '_' else c).dropWhile Paths.isBlankOrDot

/-- The base is a device name up to its first dot. -/
def Device (u : Unicode) (base : List Char) : Prop :=
  let upper := (u.upper (String.ofList base)).toList
  '.' ∈ upper ∧ String.ofList (upper.takeWhile (· ≠ '.')) ∈ Paths.windowsReserved

def indexed (base : List Char) (index : Nat) : List Char := base ++ '-' :: zeroPad 3 index

/-- How many digits an index has. -/
def digits (index : Nat) : Nat := (zeroPad 3 index).length

/-- An index of `d` digits is not cut: the name is short enough, or what stands behind its last
dot is, which is kept. -/
def Room (base : List Char) (d : Nat) : Prop :=
  base.length + 1 + d ≤ 48 ∨ '.' ∈ base ∧ (lastPart '.' base).length + 1 + d ≤ 10

/-- There is one file more than there are indices with room behind the last dot, and the cut name
of the last file is none of the others. -/
def OneOver (base : List Char) (files : Nat) : Prop :=
  '.' ∈ base ∧ (lastPart '.' base).length ≤ 6 ∧ files = 10 ^ (9 - (lastPart '.' base).length) + 1 ∧
    ∀ i < files - 1, ¬ ('.' :: lastPart '.' base ++ '-' :: zeroPad 3 i) <:+ (indexed base (files - 1)).take 48

/-! ## What a cut name keeps -/

theorem dash_notMem (index : Nat) : '-' ∉ zeroPad 3 index := fun h => absurd (zeroPad_isDigit _ h) (by decide)

theorem dot_notMem (index : Nat) : '.' ∉ '-' :: zeroPad 3 index := by
  rw [List.mem_cons, not_or]
  exact ⟨by decide, fun h => absurd (zeroPad_isDigit _ h) (by decide)⟩

theorem length_indexed (base : List Char) (index : Nat) : (indexed base index).length = base.length + 1 + digits index := by
  rw [indexed, List.length_append, List.length_cons, digits]
  omega

theorem mem_indexed (base : List Char) (index : Nat) : '.' ∈ indexed base index ↔ '.' ∈ base := by
  rw [indexed, List.mem_append]
  exact or_iff_left (dot_notMem index)

theorem suffix_notMem (base : List Char) (index : Nat) : '.' ∉ lastPart '.' base ++ '-' :: zeroPad 3 index := by
  rw [List.mem_append, not_or]
  exact ⟨notMem_lastPart _ _, dot_notMem index⟩

theorem length_suffix (base : List Char) (index : Nat) :
    (lastPart '.' base ++ '-' :: zeroPad 3 index).length = (lastPart '.' base).length + 1 + digits index := by
  rw [List.length_append, List.length_cons, digits]
  omega

/-- The last dot of a base with a dot is that of its names too. -/
theorem exists_stem {base : List Char} (h : '.' ∈ base) : ∃ p, base = p ++ '.' :: lastPart '.' base ∧
    ∀ index, indexed base index = p ++ '.' :: (lastPart '.' base ++ '-' :: zeroPad 3 index) := by
  obtain ⟨p, hp⟩ := exists_lastPart h
  refine ⟨p, hp, fun index => ?_⟩
  rw [indexed]
  conv_lhs => rw [hp]
  simp

theorem lastPart_indexed {base : List Char} (h : '.' ∈ base) (index : Nat) :
    lastPart '.' (indexed base index) = lastPart '.' base ++ '-' :: zeroPad 3 index := by
  obtain ⟨p, -, hsplit⟩ := exists_stem h
  rw [hsplit, lastPart_append p (suffix_notMem base index)]

/-- With room for it the index is kept, behind a hyphen and what stood behind the last dot. -/
theorem cap_of_room {base : List Char} {index : Nat} (h : Room base (digits index)) :
    ∃ x, Paths.cap 48 (indexed base index) = x ++ '-' :: zeroPad 3 index ∧
      ('.' ∈ base → ∃ y, x = y ++ '.' :: lastPart '.' base) := by
  by_cases hshort : (indexed base index).length ≤ 48
  · exact ⟨base, Paths.cap_short hshort, fun hdot => exists_lastPart hdot⟩
  · rw [length_indexed] at hshort
    obtain ⟨hdot, hlen⟩ := h.resolve_left hshort
    obtain ⟨p, -, hsplit⟩ := exists_stem hdot
    have hsuffix := length_suffix base index
    have hlong : 48 < (p ++ '.' :: (lastPart '.' base ++ '-' :: zeroPad 3 index)).length := by
      rw [← hsplit, length_indexed]
      omega
    refine ⟨p.take (47 - (lastPart '.' base ++ '-' :: zeroPad 3 index).length) ++ '.' :: lastPart '.' base, ?_,
      fun _ => ⟨_, rfl⟩⟩
    rw [hsplit, Paths.cap_dotted (suffix_notMem base index) (by omega) (by omega) hlong]
    simp

theorem cap_of_not_room {base : List Char} {index : Nat} (h : ¬ Room base (digits index)) :
    48 < (indexed base index).length ∧ Paths.cap 48 (indexed base index) = (indexed base index).take 48 := by
  rw [Room, not_or] at h
  have hlong : 48 < (indexed base index).length := by
    rw [length_indexed]
    omega
  refine ⟨hlong, Paths.cap_cut hlong ?_⟩
  rw [Paths.ShortSuffix, mem_indexed]
  rintro ⟨hdot, hlen⟩
  rw [lastPart_indexed hdot, length_suffix] at hlen
  exact h.2 ⟨hdot, hlen⟩

theorem index_of_append {x y : List Char} {i j : Nat} (h : x ++ '-' :: zeroPad 3 i = y ++ '-' :: zeroPad 3 j) : i = j :=
  zeroPad_injective (append_last_inj (dash_notMem i) (dash_notMem j) h).2

/-- Indices that differ in their last digit only, and are cut, leave the same name. -/
theorem cap_collides {base : List Char} {n : Nat} (h : ¬ Room base (digits (10 * n))) :
    Paths.cap 48 (indexed base (10 * n)) = Paths.cap 48 (indexed base (10 * n + 1)) := by
  have hzero : zeroPad 3 (10 * n) = zeroPad 2 n ++ ['0'] := zeroPad_succ (by decide) n (by decide : 0 < 10)
  have hone : zeroPad 3 (10 * n + 1) = zeroPad 2 n ++ ['1'] := zeroPad_succ (by decide) n (by decide : 1 < 10)
  have hdigits : digits (10 * n + 1) = digits (10 * n) := by
    rw [digits, digits, hzero, hone, List.length_append, List.length_append]
    rfl
  obtain ⟨hlong, hcut⟩ := cap_of_not_room h
  rw [hcut, (cap_of_not_room (by rwa [hdigits])).2]
  rw [length_indexed, digits, hzero, List.length_append, List.length_singleton] at hlong
  have htake : ∀ c : Char, (base ++ '-' :: (zeroPad 2 n ++ [c])).take 48 = (base ++ '-' :: zeroPad 2 n).take 48 := by
    intro c
    have hassoc : base ++ '-' :: (zeroPad 2 n ++ [c]) = (base ++ '-' :: zeroPad 2 n) ++ [c] := by simp
    rw [hassoc, List.take_append_of_le_length]
    rw [List.length_append, List.length_cons]
    omega
  rw [indexed, indexed, hzero, hone, htake, htake]

/-! ## Which indices share a name -/

theorem three_le_digits (index : Nat) : 3 ≤ digits index := le_length_zeroPad 3 index

theorem digits_le_iff {index k : Nat} (hk : 3 ≤ k) : digits index ≤ k ↔ index < 10 ^ k :=
  length_zeroPad_le_iff hk (by omega)

theorem digits_mono {i j : Nat} (h : i ≤ j) : digits i ≤ digits j := length_zeroPad_mono (by decide) h

theorem digits_tens (n : Nat) {d : Nat} (hd : d < 10) : digits (10 * n + d) = (zeroPad 2 n).length + 1 := by
  rw [digits, zeroPad_succ (by decide) n hd, List.length_append, List.length_singleton]

theorem Room.mono {base : List Char} {d d' : Nat} (h : Room base d') (hle : d ≤ d') : Room base d := by
  rcases h with h | ⟨hdot, h⟩
  · exact .inl (by omega)
  · exact .inr ⟨hdot, by omega⟩

/-- A cut name that ends as a name with a short part behind its last dot is that name. -/
theorem cap_eq_cut {base : List Char} {i last : Nat} (hdot : '.' ∈ base) (hi : (lastPart '.' base).length + 1 + digits i ≤ 10)
    (hcut : ¬ Room base (digits last))
    (h : ('.' :: lastPart '.' base ++ '-' :: zeroPad 3 i) <:+ (indexed base last).take 48) :
    Paths.cap 48 (indexed base i) = (indexed base last).take 48 := by
  obtain ⟨p, hp, hsplit⟩ := exists_stem hdot
  obtain ⟨z, hz⟩ := h
  have hlong := (cap_of_not_room hcut).1
  have hbase : base.length = p.length + 1 + (lastPart '.' base).length := by
    have hlen := congrArg List.length hp
    rw [List.length_append, List.length_cons] at hlen
    omega
  have hsuffix := length_suffix base i
  rw [List.cons_append] at hz
  by_cases hshort : (indexed base i).length ≤ 48
  · -- the last dot of both names is that of the base
    rw [Paths.cap_short hshort, hsplit, ← hz]
    rw [length_indexed] at hshort
    have htake : (indexed base last).take 48 =
        p ++ '.' :: (lastPart '.' base ++ '-' :: (zeroPad 3 last).take (47 - base.length)) := by
      rw [indexed, List.take_append, List.take_of_length_le (by omega)]
      obtain ⟨k, hk⟩ : ∃ k, 48 - base.length = k + 1 := ⟨47 - base.length, by omega⟩
      rw [hk, List.take_succ_cons, show 47 - base.length = k by omega]
      conv_lhs => rw [hp]
      simp
    have hcutfree : '.' ∉ lastPart '.' base ++ '-' :: (zeroPad 3 last).take (47 - base.length) := by
      rw [List.mem_append, List.mem_cons, not_or, not_or]
      refine ⟨notMem_lastPart _ _, by decide, fun hmem => dot_notMem last ?_⟩
      exact List.mem_cons_of_mem _ (List.mem_of_mem_take hmem)
    obtain ⟨rfl, -⟩ := append_last_inj (suffix_notMem base i) hcutfree (hz.trans htake)
    rfl
  · rw [length_indexed] at hshort
    rw [hsplit, Paths.cap_dotted (suffix_notMem base i) (by omega) (by omega) (by rw [← hsplit, length_indexed]; omega), ← hz]
    have hzlen : z.length = 47 - (lastPart '.' base ++ '-' :: zeroPad 3 i).length := by
      have hl := congrArg List.length hz
      rw [List.length_take, List.length_append, List.length_cons] at hl
      omega
    have hzpre : z = (indexed base last).take z.length := by
      have htake := congrArg (List.take z.length) hz
      rw [List.take_left, List.take_take, Nat.min_eq_left (by omega)] at htake
      exact htake
    have hprefix : (indexed base last).take z.length = p.take z.length := by
      rw [hsplit, List.take_append_of_le_length (by omega)]
    rw [← hzlen, ← hprefix, ← hzpre]

theorem cap_injective_of_room {base : List Char} {i j : Nat} (hi : Room base (digits i)) (hj : Room base (digits j))
    (h : Paths.cap 48 (indexed base i) = Paths.cap 48 (indexed base j)) : i = j := by
  obtain ⟨x, hx, -⟩ := cap_of_room hi
  obtain ⟨y, hy, -⟩ := cap_of_room hj
  rw [hx, hy] at h
  exact index_of_append h

/-- The names of the first `files` indices differ. -/
def Distinct (base : List Char) (files : Nat) : Prop :=
  ∀ i < files, ∀ j < files, Paths.cap 48 (indexed base i) = Paths.cap 48 (indexed base j) → i = j

theorem distinct_of_room {base : List Char} {last : Nat} (h : Room base (digits last)) : Distinct base (last + 1) := by
  intro i hi j hj
  exact cap_injective_of_room (h.mono (digits_mono (by omega))) (h.mono (digits_mono (by omega)))

theorem distinct_of_oneOver {base : List Char} {last : Nat} (h : OneOver base (last + 1)) : Distinct base (last + 1) := by
  obtain ⟨hdot, hshort, hfiles, hends⟩ := h
  rw [Nat.add_sub_cancel] at hends
  have hlast : last = 10 ^ (9 - (lastPart '.' base).length) := by omega
  have hdigits : ∀ i < last, (lastPart '.' base).length + 1 + digits i ≤ 10 := by
    intro i hi
    rw [hlast] at hi
    have hi' := (digits_le_iff (by omega)).2 hi
    omega
  have hroom : ∀ i < last, Room base (digits i) := fun i hi => .inr ⟨hdot, hdigits i hi⟩
  by_cases hcut : Room base (digits last)
  · exact distinct_of_room hcut
  · -- the last name is cut, and the names before it end as it does not
    have hother : ∀ i < last, Paths.cap 48 (indexed base i) ≠ Paths.cap 48 (indexed base last) := by
      intro i hi heq
      obtain ⟨x, hx, hy⟩ := cap_of_room (hroom i hi)
      obtain ⟨y, rfl⟩ := hy hdot
      rw [hx, (cap_of_not_room hcut).2] at heq
      exact hends i hi ⟨y, by rw [← heq]; simp⟩
    intro i hi j hj heq
    rcases Nat.lt_succ_iff_lt_or_eq.1 hi with hi | rfl
    · rcases Nat.lt_succ_iff_lt_or_eq.1 hj with hj | rfl
      · exact cap_injective_of_room (hroom i hi) (hroom j hj) heq
      · exact absurd heq (hother i hi)
    · rcases Nat.lt_succ_iff_lt_or_eq.1 hj with hj | rfl
      · exact absurd heq.symm (hother j hj)
      · rfl

/-- Names that differ without room for the last index: it alone has its number of digits. -/
theorem Distinct.last_eq {base : List Char} {last : Nat} (h : Distinct base (last + 1)) (hlast : 0 < last)
    (hcut : ¬ Room base (digits last)) :
    ∃ k, 2 ≤ k ∧ last = 10 ^ (k + 1) ∧ digits last = k + 2 ∧ Room base (k + 1) := by
  have hroom : ∀ n, 10 * n + 1 ≤ last → Room base (digits (10 * n)) := by
    intro n hn
    by_contra hno
    have heq := h (10 * n) (by omega) (10 * n + 1) (by omega) (cap_collides hno)
    omega
  -- so the last index is a multiple of ten, and the one before it has fewer digits
  obtain ⟨n, rfl⟩ : ∃ n, last = 10 * n := by
    refine ⟨last / 10, ?_⟩
    by_contra hne
    have hdigits : digits last = digits (10 * (last / 10)) := by
      have hzero := digits_tens (last / 10) (show 0 < 10 by decide)
      have hrest := digits_tens (last / 10) (Nat.mod_lt last (show 0 < 10 by decide))
      rw [Nat.div_add_mod] at hrest
      rw [hrest, ← hzero, Nat.add_zero]
    exact hcut (hdigits ▸ hroom (last / 10) (by omega))
  have hprevious := hroom (n - 1) (by omega)
  have hfewer : digits (10 * (n - 1)) < digits (10 * n) := by
    by_contra hle
    exact hcut (hprevious.mono (by omega))
  have hthree := three_le_digits (10 * (n - 1))
  obtain ⟨k, hk⟩ : ∃ k, digits (10 * n) = k + 2 := ⟨digits (10 * n) - 2, by omega⟩
  rw [hk] at hfewer
  have hpow : 10 ^ (k + 1) = 10 * 10 ^ k := by rw [Nat.pow_succ, Nat.mul_comm]
  have hlow : 10 * (n - 1) < 10 ^ (k + 1) := (digits_le_iff (by omega)).1 (by omega)
  have hhigh : ¬ 10 * n < 10 ^ (k + 1) := fun hlt => by
    have hle := (@digits_le_iff (10 * n) (k + 1) (by omega)).2 hlt
    omega
  have hn : n = 10 ^ k := by omega
  have hexact : digits (10 * (n - 1)) = k + 1 := by
    by_contra hne
    have hk3 : 3 ≤ k := by omega
    have hlt : 10 * (n - 1) < 10 ^ k := (digits_le_iff hk3).1 (by omega)
    have hbig : 10 ^ 1 ≤ 10 ^ k := Nat.pow_le_pow_right (by decide) (by omega)
    omega
  refine ⟨k, by omega, by omega, hk, hexact ▸ hprevious⟩

theorem Distinct.room {base : List Char} {last : Nat} (h : Distinct base (last + 1)) (hlast : 0 < last) :
    Room base (digits last) ∨ OneOver base (last + 1) := by
  by_cases hcut : Room base (digits last)
  · exact .inl hcut
  obtain ⟨k, hk, hpow, hdigits, hroom⟩ := h.last_eq hlast hcut
  have hno := hcut
  rw [hdigits, Room, not_or] at hno
  have hten : 10 ^ (k + 1) = 10 * 10 ^ k := by rw [Nat.pow_succ, Nat.mul_comm]
  have hk2 : 10 ^ 2 ≤ 10 ^ k := Nat.pow_le_pow_right (by decide) hk
  rcases hroom with hshort | ⟨hdot, hsuffix⟩
  · -- the cut takes the last zero off the last index
    exfalso
    have hpad : zeroPad 3 last = zeroPad 3 (10 ^ k) ++ ['0'] := by
      rw [zeroPad_of_le hk2, hpow, hten]
      exact zeroPad_succ (by decide) (10 ^ k) (by decide : 0 < 10)
    have hlen : (indexed base (10 ^ k)).length = 48 := by
      have hd : digits last = digits (10 ^ k) + 1 := by rw [digits, hpad, List.length_append, List.length_singleton, digits]
      rw [length_indexed]
      omega
    have hsame : Paths.cap 48 (indexed base last) = Paths.cap 48 (indexed base (10 ^ k)) := by
      rw [(cap_of_not_room hcut).2, Paths.cap_short (by omega)]
      have hassoc : indexed base last = indexed base (10 ^ k) ++ ['0'] := by rw [indexed, indexed, hpad]; simp
      rw [hassoc, ← hlen, List.take_left]
    have heq := h last (by omega) (10 ^ k) (by omega) hsame
    omega
  · have hq : (lastPart '.' base).length + k = 8 := by
      by_contra hne
      exact hno.2 ⟨hdot, by omega⟩
    have hexp : 9 - (lastPart '.' base).length = k + 1 := by omega
    refine .inr ⟨hdot, by omega, by rw [hexp, hpow], ?_⟩
    rw [Nat.add_sub_cancel]
    intro i hi hends
    have hi' : digits i ≤ k + 1 := (digits_le_iff (by omega)).2 (hpow ▸ hi)
    have hsame := cap_eq_cut hdot (by omega) hcut hends
    rw [← (cap_of_not_room hcut).2] at hsame
    exact absurd (h i (by omega) last (by omega) hsame) (by omega)

/-! ## The index survives the cleaning -/

theorem tail_plain (index : Nat) : ∀ c ∈ '-' :: zeroPad 3 index, Paths.isPlain c := by
  intro c hc
  rcases List.mem_cons.1 hc with rfl | hc
  · decide
  · simp [Paths.isPlain, zeroPad_isDigit c hc]

theorem tail_ascii (index : Nat) : ∀ c ∈ (String.ofList ('-' :: zeroPad 3 index)).toList, c.val < 128 := by
  intro c hc
  rw [String.toList_ofList] at hc
  exact Paths.isPlain_ascii (tail_plain index c hc)

variable {u : Unicode}

theorem fileRunId_eq (runId : String) (index : Nat) :
    fileRunId runId index = runId ++ String.ofList ('-' :: zeroPad 3 index) := by
  apply String.toList_injective
  simp [fileRunId]

theorem clean_fileRunId (hp : u.Piecewise) (runId : String) (index : Nat) :
    stripBy Paths.isBlankOrDot ((stripBy isSpace (u.nfkc (fileRunId runId index)).toList).map
      fun c => if Paths.isUnsafe c then '_' else c) = indexed (cleaned u runId) index := by
  have hplain := tail_plain index
  have hsafe : ('-' :: zeroPad 3 index).map (fun c => if Paths.isUnsafe c then '_' else c) = '-' :: zeroPad 3 index := by
    rw [List.map_congr_left (g := id) fun c hc => by simp [Paths.not_isUnsafe (hplain c hc)], List.map_id]
  rw [fileRunId_eq, hp.nfkc_append _ _ (tail_ascii index), String.toList_append, String.toList_ofList,
    Paths.stripBy_append _ (List.cons_ne_nil _ _) fun c hc => Paths.not_isSpace (hplain c hc), List.map_append, hsafe,
    Paths.stripBy_append _ (List.cons_ne_nil _ _) fun c hc => Paths.not_isBlankOrDot (hplain c hc)]
  rfl

theorem upper_indexed (hl : u.Lawful) (hp : u.Piecewise) (base : List Char) (index : Nat) :
    (u.upper (String.ofList (indexed base index))).toList =
      (u.upper (String.ofList base)).toList ++ ('-' :: zeroPad 3 index).map Char.toUpper := by
  rw [indexed, String.ofList_append, hp.upper_append, String.toList_append, hl.upper_ascii _ (tail_ascii index), String.toList_ofList,
    String.toList_ofList]

/-- A name is a device's when its base is one up to its first dot: no device has a hyphen in its name. -/
theorem reserved_indexed (hl : u.Lawful) (hp : u.Piecewise) (base : List Char) (index : Nat) :
    String.ofList ((u.upper (String.ofList (indexed base index))).toList.takeWhile (· ≠ '.')) ∈ Paths.windowsReserved ↔
      Device u base := by
  rw [upper_indexed hl hp, Device]
  generalize (u.upper (String.ofList base)).toList = upper
  by_cases hdot : '.' ∈ upper
  · have hcut : (upper ++ ('-' :: zeroPad 3 index).map Char.toUpper).takeWhile (· ≠ '.') = upper.takeWhile (· ≠ '.') := by
      rw [List.takeWhile_append, if_neg]
      intro hall
      have heq := List.IsPrefix.eq_of_length (List.takeWhile_prefix _) hall
      have hno := List.takeWhile_eq_self_iff.1 heq '.' hdot
      simp at hno
    rw [hcut]
    exact ⟨fun h => ⟨hdot, h⟩, fun h => h.2⟩
  · refine iff_of_false ?_ fun h => hdot h.1
    have hall : (upper ++ ('-' :: zeroPad 3 index).map Char.toUpper).takeWhile (· ≠ '.') =
        upper ++ ('-' :: zeroPad 3 index).map Char.toUpper := by
      rw [List.takeWhile_eq_self_iff]
      intro c hc
      rcases List.mem_append.1 hc with hc | hc
      · have hne : c ≠ '.' := fun heq => hdot (heq ▸ hc)
        simpa using hne
      · obtain ⟨d, hd, rfl⟩ := List.mem_map.1 hc
        simpa using Paths.isPlain_upper (tail_plain index d hd)
    have hhyphen : ∀ name ∈ Paths.windowsReserved, '-' ∉ name.toList := by decide
    rw [hall]
    intro hmem
    apply hhyphen _ hmem
    rw [String.toList_ofList]
    exact List.mem_append_right _ (List.mem_map.2 ⟨'-', List.mem_cons_self, by decide⟩)

theorem fileStem_device (hl : u.Lawful) (hp : u.Piecewise) {runId : String} (h : Device u (cleaned u runId)) (index : Nat) :
    fileStem u runId index = "adhoc" := by
  rw [fileStem, Paths.safeFilename]
  rw [clean_fileRunId hp, if_pos (.inr ((reserved_indexed hl hp _ _).2 h))]

theorem fileStem_indexed (hl : u.Lawful) (hp : u.Piecewise) {runId : String} (h : ¬ Device u (cleaned u runId)) (index : Nat) :
    fileStem u runId index = String.ofList (Paths.cap 48 (indexed (cleaned u runId) index)) := by
  have hne : indexed (cleaned u runId) index ≠ [] := by simp [indexed]
  rw [fileStem, Paths.safeFilename]
  rw [clean_fileRunId hp, if_neg (not_or.2 ⟨hne, mt (reserved_indexed hl hp _ _).1 h⟩)]

/-! ## Two files -/

/-- The files of a job have names of their own exactly when there is at most one, or the run id is
no device name up to its first dot and leaves room for the last index. -/
theorem names_differ_iff {D E : Type} (c : ParquetConfig D E) (hl : c.unicode.Lawful) (hp : c.unicode.Piecewise)
    (runId : String) (paths : List String) :
    (∀ i < paths.length, ∀ j < paths.length, i ≠ j →
        ParquetStore.safeRun c (fileRunId runId i) ≠ ParquetStore.safeRun c (fileRunId runId j)) ↔
      paths.length ≤ 1 ∨ ¬ Device c.unicode (cleaned c.unicode runId) ∧
        (Room (cleaned c.unicode runId) (digits (paths.length - 1)) ∨ OneOver (cleaned c.unicode runId) paths.length) := by
  have hstem : ∀ index, ParquetStore.safeRun c (fileRunId runId index) = fileStem c.unicode runId index := fun _ => rfl
  simp only [hstem]
  by_cases hone : paths.length ≤ 1
  · exact iff_of_true (fun i hi j hj hne => absurd (show i = j by omega) hne) (.inl hone)
  rw [or_iff_right hone]
  obtain ⟨last, hlast⟩ : ∃ last, paths.length = last + 1 := ⟨paths.length - 1, by omega⟩
  rw [hlast, Nat.add_sub_cancel]
  by_cases hdevice : Device c.unicode (cleaned c.unicode runId)
  · refine iff_of_false (fun h => ?_) fun h => h.1 hdevice
    exact h 0 (by omega) 1 (by omega) (by decide) (by rw [fileStem_device hl hp hdevice, fileStem_device hl hp hdevice])
  have hdistinct : (∀ i < last + 1, ∀ j < last + 1, i ≠ j → fileStem c.unicode runId i ≠ fileStem c.unicode runId j) ↔
      Distinct (cleaned c.unicode runId) (last + 1) := by
    simp only [fileStem_indexed hl hp hdevice, ne_eq, String.ofList_inj, not_imp_not]
    rfl
  rw [hdistinct, and_iff_right hdevice]
  constructor
  · intro h
    exact h.room (by omega)
  · rintro (hroom | hover)
    · exact distinct_of_room hroom
    · exact distinct_of_oneOver hover

theorem asciiUnicode_piecewise : asciiUnicode.Piecewise where
  nfkc_append _ _ _ := rfl
  upper_append s t := by
    apply String.toList_injective
    simp [asciiUnicode]

/-- A Parquet store, all events in one partition. -/
def jobStore : ParquetConfig Unit Unit where
  unicode := asciiUnicode
  batchSize := 1000
  partition _ := ()

theorem names_differ_iff_nightly :
    (∀ i < ["a.log", "b.log"].length, ∀ j < ["a.log", "b.log"].length, i ≠ j →
        ParquetStore.safeRun jobStore (fileRunId "nightly" i) ≠ ParquetStore.safeRun jobStore (fileRunId "nightly" j)) ↔
      ["a.log", "b.log"].length ≤ 1 ∨ ¬ Device asciiUnicode (cleaned asciiUnicode "nightly") ∧
        (Room (cleaned asciiUnicode "nightly") (digits (["a.log", "b.log"].length - 1)) ∨
          OneOver (cleaned asciiUnicode "nightly") ["a.log", "b.log"].length) :=
  names_differ_iff jobStore asciiUnicode_lawful asciiUnicode_piecewise "nightly" ["a.log", "b.log"]

/-- A run id of 46 characters leaves no room: both files of the job are written to one name. -/
theorem long_run_id_shared :
    ¬ ∀ (runId : String) (paths : List String), ∀ i < paths.length, ∀ j < paths.length, i ≠ j →
        ParquetStore.safeRun jobStore (fileRunId runId i) ≠ ParquetStore.safeRun jobStore (fileRunId runId j) := by
  intro h
  exact h "nightly-import-of-the-frontend-web-server-logs" ["a.log", "b.log"] 0 (by decide) 1 (by decide) (by decide)
    (by decide)

end ParallelRun

end LogAnalytics
