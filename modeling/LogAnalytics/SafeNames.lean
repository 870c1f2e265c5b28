import Mathlib.Data.List.DropRight
import LogAnalytics.Lib.Separated
import LogAnalytics.Paths
/-!
# What `safe_filename` lets through

The name is cleaned first, then compared with the device names, then cut. `_reject_platform_hazards`
makes the comparison too, but without the blanks behind the name, and nothing is stripped after the
cut.
-/
open LogAnalytics.Lib

namespace LogAnalytics

/-- What `str.upper` does beyond ASCII: it goes character by character, drops none, and makes a
blank or a dot of no other character. -/
structure Unicode.UpperByChar (u : Unicode) : Prop where
  append : ∀ s t, u.upper (s ++ t) = u.upper s ++ u.upper t
  visible : ∀ c, Paths.isBlankOrDot c = false →
    (u.upper (String.ofList [c])).toList ≠ [] ∧ ∀ d ∈ (u.upper (String.ofList [c])).toList, Paths.isBlankOrDot d = false

namespace Paths

/-- A name as it is before it is cut. -/
def tidied (u : Unicode) (name : String) : List Char :=
  stripBy isBlankOrDot ((stripBy isSpace (u.nfkc name).toList).map fun c => if isUnsafe c then '_' else c)

/-- Nothing is left of it, or a device name up to the first dot. -/
def FallsBack (u : Unicode) (tidy : List Char) : Prop :=
  tidy = [] ∨ String.ofList ((u.upper (String.ofList tidy)).toList.takeWhile (· ≠ '.')) ∈ windowsReserved

/-- A device name, with or without blanks behind it. -/
def DeviceName (u : Unicode) (part : List Char) : Prop :=
  u.upper (String.ofList (part.rdropWhile (· = ' '))) ∈ windowsReserved

/-- What stands before the first dot. -/
def stem (name : List Char) : List Char := name.takeWhile (· ≠ '.')

/-- A suffix that a cut keeps. -/
def ShortSuffix (tidy : List Char) : Prop := '.' ∈ tidy ∧ (lastPart '.' tidy).length ≤ 10

instance (tidy : List Char) : Decidable (ShortSuffix tidy) := inferInstanceAs (Decidable (_ ∧ _))

/-- How many characters are kept from the left. -/
def kept (maxLength : Nat) (tidy : List Char) : Nat :=
  if tidy.length ≤ maxLength then tidy.length
  else if ShortSuffix tidy then maxLength - 1 - (lastPart '.' tidy).length
  else maxLength

/-- A file name the platform guards have nothing against. -/
structure Safe (u : Unicode) (maxLength : Nat) (name : String) : Prop where
  nonempty : 1 ≤ name.length
  short : name.length ≤ maxLength
  clean : ∀ c ∈ name.toList, isUnsafe c = false
  first : ∀ c ∈ name.toList.head?, isBlankOrDot c = false
  last : ∀ c ∈ name.toList.getLast?, isBlankOrDot c = false
  accepted : rejectPlatformHazards u [name] = .ok ()

/-! ## Cutting -/

theorem cap_short {maxLength : Nat} {name : List Char} (h : name.length ≤ maxLength) : cap maxLength name = name := by
  rw [cap, if_neg (by omega)]

theorem cap_cut {maxLength : Nat} {name : List Char} (h : maxLength < name.length) (hcut : ¬ShortSuffix name) :
    cap maxLength name = name.take maxLength := by
  have hcut' : ¬('.' ∈ name ∧ (name.reverse.takeWhile (· ≠ '.')).reverse.length ≤ 10) := hcut
  rw [cap, if_pos h]
  dsimp only
  rw [if_neg hcut']

/-- A short part behind the last dot is kept whole, in a name of exactly the length allowed. -/
theorem cap_dotted {maxLength : Nat} {p q : List Char} (hq : '.' ∉ q) (hlen : q.length ≤ 10) (hroom : q.length < maxLength)
    (h : maxLength < (p ++ '.' :: q).length) : cap maxLength (p ++ '.' :: q) = p.take (maxLength - 1 - q.length) ++ '.' :: q := by
  have hlast : ((p ++ '.' :: q).reverse.takeWhile (· ≠ '.')).reverse = q := lastPart_append p hq
  rw [cap, if_pos h]
  dsimp only
  rw [hlast, if_pos ⟨by simp, hlen⟩, takeTo, if_pos (by omega)]
  have hstem : (p ++ '.' :: q).take ((p ++ '.' :: q).length - q.length - 1) = p := by
    rw [List.length_append, List.length_cons, List.take_left' (by omega)]
  have hkeep : ((maxLength : Int) - q.length - 1).toNat = maxLength - 1 - q.length := by omega
  rw [hstem, hkeep]

/-- A name is left as it is, or cut in front of its suffix, or cut. -/
inductive Cut (maxLength : Nat) (tidy : List Char) : Prop where
  | short (hlen : tidy.length ≤ maxLength) (hcap : cap maxLength tidy = tidy) (hkept : kept maxLength tidy = tidy.length)
  | dotted (p q : List Char) (htidy : tidy = p ++ '.' :: q) (hk : kept maxLength tidy = maxLength - 1 - q.length)
      (hlen : q.length ≤ 10) (hp : maxLength - 1 - q.length ≤ p.length) (hlong : maxLength < tidy.length)
      (hsuffix : ShortSuffix tidy) (hcap : cap maxLength tidy = tidy.take (kept maxLength tidy) ++ '.' :: q)
  | plain (hlong : maxLength < tidy.length) (hsuffix : ¬ShortSuffix tidy) (hkept : kept maxLength tidy = maxLength)
      (hcap : cap maxLength tidy = tidy.take maxLength)

theorem cut {maxLength : Nat} (hmax : 16 ≤ maxLength) (tidy : List Char) : Cut maxLength tidy := by
  by_cases hshort : tidy.length ≤ maxLength
  · exact .short hshort (cap_short hshort) (if_pos hshort)
  by_cases hsuffix : ShortSuffix tidy
  · obtain ⟨p, hp⟩ := exists_lastPart hsuffix.1
    have hlen := hsuffix.2
    have hk : kept maxLength tidy = maxLength - 1 - (lastPart '.' tidy).length := by
      rw [kept, if_neg hshort, if_pos hsuffix]
    have hroom : maxLength < (p ++ '.' :: lastPart '.' tidy).length := hp ▸ not_le.1 hshort
    have hfits : maxLength - 1 - (lastPart '.' tidy).length ≤ p.length := by
      rw [List.length_append, List.length_cons] at hroom
      omega
    have htake : tidy.take (kept maxLength tidy) = p.take (maxLength - 1 - (lastPart '.' tidy).length) := by
      rw [hk]
      exact (congrArg (List.take _) hp).trans (List.take_append_of_le_length hfits)
    refine .dotted p _ hp hk hlen hfits (not_le.1 hshort) hsuffix ?_
    rw [htake]
    conv_lhs => rw [hp]
    exact cap_dotted (notMem_lastPart _ _) hlen (by omega) hroom
  · exact .plain (not_le.1 hshort) hsuffix (by rw [kept, if_neg hshort, if_neg hsuffix]) (cap_cut (not_le.1 hshort) hsuffix)

/-- The cut falls behind the first dot, or leaves what stands before it. -/
theorem stem_cap {maxLength : Nat} (hmax : 16 ≤ maxLength) (tidy : List Char) :
    stem (cap maxLength tidy) = stem (tidy.take (kept maxLength tidy)) := by
  rcases cut hmax tidy with ⟨-, hcap, hkept⟩ | ⟨p, q, -, -, -, -, -, -, hcap⟩ | ⟨-, -, hkept, hcap⟩
  · rw [hcap, hkept, List.take_length]
  · have hdot : ∀ x : List Char, stem (x ++ '.' :: q) = stem x := by
      intro x
      unfold stem
      rw [List.takeWhile_append]
      split
      · next hall =>
        rw [List.takeWhile_cons_of_neg (by simp), List.append_nil, (List.takeWhile_prefix _).eq_of_length hall]
      · rfl
    rw [hcap, hdot]
  · rw [hcap, hkept]

/-! ## Cleaning -/

theorem stripBy_eq_rdropWhile (p : Char → Bool) (s : List Char) : stripBy p s = (s.dropWhile p).rdropWhile p := rfl

theorem stripBy_subset {p : Char → Bool} {s : List Char} : stripBy p s ⊆ s := by
  rw [stripBy_eq_rdropWhile]
  exact fun c hc => (List.dropWhile_suffix p).subset ((List.rdropWhile_prefix p _).subset hc)

theorem stripBy_last {p : Char → Bool} {s : List Char} : ∀ c ∈ (stripBy p s).getLast?, p c = false := by
  intro c hc
  rw [stripBy_eq_rdropWhile] at hc
  have hne : (s.dropWhile p).rdropWhile p ≠ [] := by
    rintro he
    rw [he] at hc
    cases hc
  rw [List.getLast?_eq_some_getLast hne, Option.mem_some_iff] at hc
  simpa [hc] using List.rdropWhile_last_not p (s.dropWhile p) hne

theorem stripBy_first {p : Char → Bool} {s : List Char} : ∀ c ∈ (stripBy p s).head?, p c = false := by
  intro c hc
  obtain ⟨more, hmore⟩ : stripBy p s <+: s.dropWhile p := by
    rw [stripBy_eq_rdropWhile]
    exact List.rdropWhile_prefix p _
  have hhead : (s.dropWhile p).head? = some c := by
    rw [← hmore, List.head?_append, hc]
    rfl
  have hnot := List.head?_dropWhile_not p s
  rw [hhead] at hnot
  simpa using hnot

theorem tidied_clean (u : Unicode) (name : String) : ∀ c ∈ tidied u name, isUnsafe c = false := by
  intro c hc
  obtain ⟨d, -, rfl⟩ := List.mem_map.1 (stripBy_subset hc)
  split
  · decide
  · next hsafe => simpa using hsafe

instance (u : Unicode) (tidy : List Char) : Decidable (FallsBack u tidy) := inferInstanceAs (Decidable (_ ∨ _))

theorem safeFilename_eq (u : Unicode) (fallback : String) (maxLength : Nat) (name : String) :
    safeFilename u fallback maxLength name =
      if FallsBack u (tidied u name) then fallback else String.ofList (cap maxLength (tidied u name)) := rfl

/-! ## Device names -/

/-- What is left of the upper case when blanks and dots are stripped is the upper case of what is
left. -/
theorem rdropWhile_upper {u : Unicode} (hu : u.Lawful) (hupper : u.UpperByChar) (part : List Char) (hdot : '.' ∉ part) :
    (u.upper (String.ofList part)).toList.rdropWhile isBlankOrDot =
      (u.upper (String.ofList (part.rdropWhile (· = ' ')))).toList := by
  induction part using List.reverseRecOn with
  | nil =>
    have hempty : (u.upper (String.ofList [])).toList = [] := by simp [hu.upper_ascii]
    rw [List.rdropWhile_nil, hempty, List.rdropWhile_nil]
  | append_singleton part c ih =>
    have hsplit : (u.upper (String.ofList (part ++ [c]))).toList =
        (u.upper (String.ofList part)).toList ++ (u.upper (String.ofList [c])).toList := by
      rw [String.ofList_append, hupper.append, String.toList_append]
    by_cases hblank : c = ' '
    · subst hblank
      have hupper : (u.upper (String.ofList [' '])).toList = [' '] := by
        rw [hu.upper_ascii _ (by simp)]
        rfl
      rw [hsplit, hupper, List.rdropWhile_concat_pos _ _ _ (by decide), List.rdropWhile_concat_pos _ _ _ (by decide)]
      exact ih fun h => hdot (List.mem_append_left _ h)
    · have hvisible : isBlankOrDot c = false := by
        have hne : c ≠ '.' := fun h => hdot (by simp [h])
        simp [isBlankOrDot, hblank, hne]
      obtain ⟨hne, hall⟩ := hupper.visible c hvisible
      rw [List.rdropWhile_concat_neg _ _ _ (by simpa using hblank), List.rdropWhile_eq_self_iff]
      intro hfull
      have hmem : (u.upper (String.ofList (part ++ [c]))).toList.getLast hfull ∈ (u.upper (String.ofList [c])).toList := by
        simp only [hsplit]
        rw [List.getLast_append_of_ne_nil _ hne]
        exact List.getLast_mem hne
      rw [hall _ hmem]
      exact Bool.false_ne_true

theorem isReserved_iff {u : Unicode} (hu : u.Lawful) (hupper : u.UpperByChar) (name : List Char) :
    isReserved u (String.ofList name) = true ↔ DeviceName u (stem name) := by
  have hdot : '.' ∉ stem name := fun h => by simpa using List.mem_takeWhile_imp h
  have hstrip := rdropWhile_upper hu hupper (stem name) hdot
  unfold isReserved DeviceName
  rw [String.toList_ofList, decide_eq_true_eq]
  change String.ofList ((u.upper (String.ofList (stem name))).toList.rdropWhile isBlankOrDot) ∈ windowsReserved ↔ _
  rw [hstrip, String.ofList_toList]

/-! ## The name that comes out -/

/-- Of a clean name only the device name is left to be looked for. -/
theorem accepted_iff {u : Unicode} {name : String} (hclean : ∀ c ∈ name.toList, isUnsafe c = false) :
    rejectPlatformHazards u [name] = .ok () ↔ isReserved u name = false := by
  have hcolon : ':' ∉ name.toList := fun h => absurd (hclean _ h) (by decide)
  have hstream : [name].getLast?.any (':' ∈ ·.toList) = false := by simpa using hcolon
  rw [rejectPlatformHazards, hstream, if_neg Bool.false_ne_true, List.any_cons, List.any_nil, Bool.or_false]
  cases isReserved u name <;> simp

theorem safe_unnamed {u : Unicode} (hu : u.Lawful) {maxLength : Nat} (hmax : 16 ≤ maxLength) :
    Safe u maxLength "unnamed" := by
  have hlist : "unnamed".toList = ['u', 'n', 'n', 'a', 'm', 'e', 'd'] := rfl
  have hclean : ∀ c ∈ "unnamed".toList, isUnsafe c = false := by simp [isUnsafe]
  have hends : isBlankOrDot 'u' = false ∧ isBlankOrDot 'd' = false := by decide
  have hreserved : isReserved u "unnamed" = false := by
    have hstem : "unnamed".toList.takeWhile (· ≠ '.') = "unnamed".toList := rfl
    rw [isReserved, hstem, String.ofList_toList, hu.upper_ascii _ (by simp)]
    decide
  refine ⟨by decide, le_trans (by decide) hmax, hclean, ?_, ?_, (accepted_iff hclean).2 hreserved⟩
  · rw [hlist]
    rintro c ⟨⟩
    exact hends.1
  · rw [hlist]
    rintro c ⟨⟩
    exact hends.2

/-- All but the last character and the device name is as it should be. -/
theorem safe_cap_iff {u : Unicode} (hu : u.Lawful) (hupper : u.UpperByChar) {maxLength : Nat} (hmax : 16 ≤ maxLength)
    {tidy : List Char} (hne : tidy ≠ []) (hclean : ∀ c ∈ tidy, isUnsafe c = false)
    (hfirst : ∀ c ∈ tidy.head?, isBlankOrDot c = false) :
    Safe u maxLength (String.ofList (cap maxLength tidy)) ↔
      ¬DeviceName u (stem (tidy.take (kept maxLength tidy))) ∧
        ∀ c ∈ (cap maxLength tidy).getLast?, isBlankOrDot c = false := by
  have hbounds : 1 ≤ (cap maxLength tidy).length ∧ (cap maxLength tidy).length ≤ maxLength ∧
      (cap maxLength tidy).head? = tidy.head? ∧ ∀ c ∈ cap maxLength tidy, c ∈ tidy := by
    have hpos := List.length_pos_iff.2 hne
    rcases cut hmax tidy with ⟨hlen, hcap, -⟩ | ⟨p, q, htidy, hk, hlen, hp, hlong, -, hcap⟩ | ⟨hlong, -, -, hcap⟩
    · rw [hcap]
      exact ⟨hpos, hlen, rfl, fun c hc => hc⟩
    · have hlength : tidy.length = p.length + (q.length + 1) := by rw [htidy, List.length_append, List.length_cons]
      rw [hcap, hk]
      refine ⟨?_, ?_, ?_, fun c hc => ?_⟩
      · rw [List.length_append, List.length_cons]
        omega
      · rw [List.length_append, List.length_take, List.length_cons]
        omega
      · rw [List.head?_append, List.head?_take, if_neg (by omega)]
        cases htidy' : tidy.head? with
        | none => exact absurd (List.head?_eq_none_iff.1 htidy') hne
        | some c => rfl
      · rcases List.mem_append.1 hc with hc | hc
        · exact List.mem_of_mem_take hc
        · exact htidy ▸ List.mem_append_right p hc
    · rw [hcap, List.length_take, List.head?_take, if_neg (by omega)]
      exact ⟨by omega, by omega, rfl, fun c hc => List.mem_of_mem_take hc⟩
  obtain ⟨hpos, hshort, hhead, hsubset⟩ := hbounds
  have hclean' : ∀ c ∈ (String.ofList (cap maxLength tidy)).toList, isUnsafe c = false := by
    rw [String.toList_ofList]
    exact fun c hc => hclean c (hsubset c hc)
  have haccepted : rejectPlatformHazards u [String.ofList (cap maxLength tidy)] = .ok () ↔
      ¬DeviceName u (stem (tidy.take (kept maxLength tidy))) := by
    rw [accepted_iff hclean', ← stem_cap hmax, ← isReserved_iff hu hupper, Bool.not_eq_true]
  constructor
  · intro hsafe
    exact ⟨haccepted.1 hsafe.accepted, by simpa only [String.toList_ofList] using hsafe.last⟩
  · rintro ⟨hdevice, hlast⟩
    refine ⟨by rwa [String.length_ofList], by rwa [String.length_ofList], hclean', ?_, ?_, haccepted.2 hdevice⟩
    · rwa [String.toList_ofList, hhead]
    · rwa [String.toList_ofList]

/-- A name that is not cut, and one whose suffix is kept, end as they did. -/
theorem last_cap_iff {maxLength : Nat} (hmax : 16 ≤ maxLength) {tidy : List Char}
    (hlast : ∀ c ∈ tidy.getLast?, isBlankOrDot c = false) :
    (∀ c ∈ (cap maxLength tidy).getLast?, isBlankOrDot c = false) ↔
      (maxLength < tidy.length → ¬ShortSuffix tidy → ∀ c ∈ (tidy.take maxLength).getLast?, isBlankOrDot c = false) := by
  rcases cut hmax tidy with ⟨hlen, hcap, -⟩ | ⟨p, q, htidy, -, -, -, -, hsuffix, hcap⟩ | ⟨hlong, hsuffix, -, hcap⟩
  · rw [hcap]
    exact iff_of_true hlast fun hlong => absurd hlong (not_lt.2 hlen)
  · have hsame : (cap maxLength tidy).getLast? = tidy.getLast? := by
      rw [hcap, List.getLast?_append_of_ne_nil _ (List.cons_ne_nil _ _)]
      conv_rhs => rw [htidy, List.getLast?_append_of_ne_nil _ (List.cons_ne_nil _ _)]
    rw [hsame]
    exact iff_of_true hlast fun _ hnot => absurd hsuffix hnot
  · rw [hcap]
    exact ⟨fun h _ _ => h, fun h => h hlong hsuffix⟩

/-- The name is safe exactly when the fallback is taken, or no device name with blanks behind it is
left in front, and no blank or dot at the end of a cut. -/
theorem safeFilename_safe_iff {u : Unicode} (hu : u.Lawful) (hupper : u.UpperByChar) {maxLength : Nat}
    (hmax : 16 ≤ maxLength) (name : String) :
    Safe u maxLength (safeFilename u "unnamed" maxLength name) ↔
      FallsBack u (tidied u name) ∨
        ¬DeviceName u (stem ((tidied u name).take (kept maxLength (tidied u name)))) ∧
          (maxLength < (tidied u name).length → ¬ShortSuffix (tidied u name) →
            ∀ c ∈ ((tidied u name).take maxLength).getLast?, isBlankOrDot c = false) := by
  rw [safeFilename_eq]
  split
  · next hback => exact iff_of_true (safe_unnamed hu hmax) (.inl hback)
  · next hback =>
    have hne : tidied u name ≠ [] := fun h => hback (.inl h)
    rw [or_iff_right hback, safe_cap_iff hu hupper hmax hne (tidied_clean u name) stripBy_first,
      @last_cap_iff _ hmax (tidied u name) stripBy_last]

theorem asciiUnicode_upperByChar : asciiUnicode.UpperByChar := by
  refine ⟨fun s t => ?_, fun c hc => ?_⟩
  · simp [asciiUnicode]
  · have hupper : (asciiUnicode.upper (String.ofList [c])).toList = [c.toUpper] := by simp [asciiUnicode]
    rw [hupper, List.forall_mem_singleton]
    simp only [isBlankOrDot, Bool.or_eq_false_iff, decide_eq_false_iff_not] at hc ⊢
    exact ⟨List.cons_ne_nil _ _, toUpper_ne (by decide) hc.1, toUpper_ne (by decide) hc.2⟩

theorem safeFilename_safe_iff_separators :
    Safe asciiUnicode 180 (safeFilename asciiUnicode "unnamed" 180 "a/b\\c.txt") ↔
      FallsBack asciiUnicode (tidied asciiUnicode "a/b\\c.txt") ∨
        ¬DeviceName asciiUnicode (stem ((tidied asciiUnicode "a/b\\c.txt").take
          (kept 180 (tidied asciiUnicode "a/b\\c.txt")))) ∧
          (180 < (tidied asciiUnicode "a/b\\c.txt").length → ¬ShortSuffix (tidied asciiUnicode "a/b\\c.txt") →
            ∀ c ∈ ((tidied asciiUnicode "a/b\\c.txt").take 180).getLast?, isBlankOrDot c = false) :=
  safeFilename_safe_iff asciiUnicode_lawful asciiUnicode_upperByChar (by decide) _

/-- A blank behind the device name, and a cut behind a dot. -/
theorem unsafe_names_pass :
    ¬Safe asciiUnicode 180 (safeFilename asciiUnicode "unnamed" 180 "CON .txt") ∧
      ¬Safe asciiUnicode 16 (safeFilename asciiUnicode "unnamed" 16 "quarterly-sales.appendix-two") := by
  have hname : safeFilename asciiUnicode "unnamed" 16 "quarterly-sales.appendix-two" = "quarterly-sales." := by decide
  refine ⟨fun h => absurd h.accepted (by decide), fun h => ?_⟩
  have hlast := h.last '.' (by rw [hname]; rfl)
  exact absurd hlast (by decide)

end Paths

end LogAnalytics
