import Mathlib.Data.List.Basic
import Mathlib.Data.List.TakeWhile
import LogAnalytics.Exn
/-!
# Paths and file names

`safe_filename` and `resolve_within`, with Unicode normalisation and case mapping (`Unicode`)
and what the file system says of a path (`Os`) as parameters. A name of plain ASCII characters
that is short enough is its own safe name; below a directory without links, what
`resolve_within` decides of ordinary names it decides of all of them.
-/

namespace LogAnalytics

/-- The Unicode functions of the standard library that the code calls. -/
structure Unicode where
  /-- `unicodedata.normalize("NFKC", s)` -/
  nfkc : String → String
  /-- `str.upper` -/
  upper : String → String
  /-- The value of a decimal digit, a character that `\d` matches. -/
  decimal : Char → Option Nat

/-- The ASCII digits. -/
def asciiDecimal (c : Char) : Option Nat := if c.isDigit then some (c.toNat - '0'.toNat) else none

/-- All leave ASCII text to the ASCII rules. -/
structure Unicode.Lawful (u : Unicode) : Prop where
  nfkc_ascii : ∀ s, (∀ c ∈ s.toList, c.val < 128) → u.nfkc s = s
  upper_ascii : ∀ s, (∀ c ∈ s.toList, c.val < 128) → u.upper s = String.ofList (s.toList.map Char.toUpper)
  decimal_ascii : ∀ c : Char, c.val < 128 → u.decimal c = asciiDecimal c

/-- The characters `str.strip()` removes. -/
def isSpace (c : Char) : Bool :=
  let n := c.toNat
  (9 ≤ n && n ≤ 13) || (28 ≤ n && n ≤ 32) || n = 0x85 || n = 0xA0 || n = 0x1680 || (0x2000 ≤ n && n ≤ 0x200A) ||
    n = 0x2028 || n = 0x2029 || n = 0x202F || n = 0x205F || n = 0x3000

/-- Drop the characters that meet `p` from both ends. -/
def stripBy (p : Char → Bool) (s : List Char) : List Char :=
  ((s.dropWhile p).reverse.dropWhile p).reverse

/-- The ASCII rules applied to every character. -/
def asciiUnicode : Unicode where
  nfkc := id
  upper s := String.ofList (s.toList.map Char.toUpper)
  decimal := asciiDecimal

theorem asciiUnicode_lawful : asciiUnicode.Lawful := ⟨fun _ _ => rfl, fun _ _ => rfl, fun _ _ => rfl⟩

/-- `pathlib` parts. -/
abbrev Path := List String

/-- What the file system says of a path. -/
structure Os where
  /-- `Path.expanduser().is_symlink()`, no on an `OSError`. -/
  isSymlink : Path → Bool
  /-- `Path.expanduser().resolve()` -/
  resolve : Path → Path

namespace Paths

/-- `_WINDOWS_RESERVED` -/
def windowsReserved : List String :=
  ["CON", "PRN", "AUX", "NUL"] ++ ["COM1", "COM2", "COM3", "COM4", "COM5", "COM6", "COM7", "COM8", "COM9"] ++
    ["LPT1", "LPT2", "LPT3", "LPT4", "LPT5", "LPT6", "LPT7", "LPT8", "LPT9"]

/-- A character `_UNSAFE_NAME_CHARS` matches. -/
def isUnsafe (c : Char) : Bool :=
  c.toNat < 0x20 || c ∈ ['<', '>', ':', '"', '|', '?', '*', '\\', '/']

def isBlankOrDot (c : Char) : Bool := c = ' ' || c = '.'

/-- `s[:k]`; a negative `k` counts from the end. -/
def takeTo (k : Int) (s : List Char) : List Char :=
  if 0 ≤ k then s.take k.toNat else s.take (s.length - (-k).toNat)

/-- Cut an over-long name, keeping a short suffix. -/
def cap (maxLength : Nat) (name : List Char) : List Char :=
  if maxLength < name.length then
    let suffix := (name.reverse.takeWhile (· ≠ '.')).reverse
    if '.' ∈ name ∧ suffix.length ≤ 10 then
      let stem := name.take (name.length - suffix.length - 1)
      takeTo ((maxLength : Int) - suffix.length - 1) stem ++ '.' :: suffix
    else name.take maxLength
  else name

def safeFilename (u : Unicode) (fallback : String) (maxLength : Nat) (name : String) : String :=
  let name := stripBy isSpace (u.nfkc name).toList
  let name := stripBy isBlankOrDot (name.map fun c => if isUnsafe c then '_' else c)
  if name = [] ∨ String.ofList ((u.upper (String.ofList name)).toList.takeWhile (· ≠ '.')) ∈ windowsReserved then
    fallback
  else String.ofList (cap maxLength name)

/-! ## Containment -/

def isWithin (candidate root : Path) : Bool := root.isPrefixOf candidate

/-- A `..` segment under either separator. -/
def hasParentSegment (path : Path) : Bool :=
  path.any fun part => (part.toList.splitOnP (· = '\\')).any (· = ['.', '.'])

/-- `part.split(".", 1)[0].upper().rstrip(" .")` is a reserved device name. -/
def isReserved (u : Unicode) (part : String) : Bool :=
  let stem := (u.upper (String.ofList (part.toList.takeWhile (· ≠ '.')))).toList
  String.ofList (stem.reverse.dropWhile isBlankOrDot).reverse ∈ windowsReserved

/-- `_reject_platform_hazards` -/
def rejectPlatformHazards (u : Unicode) (path : Path) : Except Exn Unit :=
  if path.any (isReserved u) then .error ⟨.pathTraversalError, "path refers to a reserved device name"⟩
  else if path.getLast?.any (':' ∈ ·.toList) then
    .error ⟨.pathTraversalError, "path contains an alternate data stream"⟩
  else .ok ()

/-- `resolve_within` with its defaults (`must_exist` and `allow_symlinks` off). -/
def resolveWithin (u : Unicode) (os : Os) (candidate : Path) (roots : List Path) : Except Exn Path :=
  if roots = [] then .error ⟨.pathTraversalError, "no permitted roots configured"⟩
  else if candidate.any ('\x00' ∈ ·.toList) then .error ⟨.pathTraversalError, "path contains a NUL byte"⟩
  else if hasParentSegment candidate then
    .error ⟨.pathTraversalError, "path contains a parent-directory segment"⟩
  else if os.isSymlink candidate then .error ⟨.pathTraversalError, "symlinked paths are not permitted"⟩
  else do
    let resolved := os.resolve candidate
    rejectPlatformHazards u resolved
    if roots.any fun root => isWithin resolved (os.resolve root) then return resolved
    else .error ⟨.pathTraversalError, "path is outside the permitted roots"⟩

/-- The directory `root`, inside `top`, is where its path says, and so is everything below it. -/
structure LinkFree (os : Os) (top root : Path) : Prop where
  inside : top <+: root
  resolved : os.resolve top = top
  below : ∀ rest, os.resolve (root ++ rest) = root ++ rest
  no_link : ∀ rest, rest ≠ [] → os.isSymlink (root ++ rest) = false

/-- A directory name such as `year=2026`: ASCII, with an equals sign and nothing the platform
guards look for. -/
structure Ordinary (part : String) : Prop where
  ascii : ∀ c ∈ part.toList, c.val < 128
  guarded : ∀ c ∈ part.toList, c ≠ '\x00' ∧ c ≠ '\\' ∧ c ≠ '.' ∧ c ≠ ':'
  equals : '=' ∈ part.toList

theorem mem_dropWhile {α : Type} {p : α → Bool} {a : α} {l : List α} (h : a ∈ l) (hp : p a = false) : a ∈ l.dropWhile p := by
  induction l with
  | nil => cases h
  | cons b l ih =>
    rw [List.dropWhile_cons]
    split
    · next hb =>
      rcases List.mem_cons.1 h with rfl | h
      · rw [hp] at hb; cases hb
      · exact ih h
    · exact h

theorem Ordinary.not_reserved {u : Unicode} (hu : u.Lawful) {part : String} (h : Ordinary part) : isReserved u part = false := by
  have hstem : part.toList.takeWhile (· ≠ '.') = part.toList :=
    List.takeWhile_eq_self_iff.2 fun c hc => by simpa using (h.guarded c hc).2.2.1
  have hequals : ∀ name ∈ windowsReserved, '=' ∉ name.toList := by decide
  simp only [isReserved, hstem, String.ofList_toList, hu.upper_ascii part h.ascii, String.toList_ofList,
    decide_eq_false_iff_not]
  intro hmem
  apply hequals _ hmem
  rw [String.toList_ofList, List.mem_reverse]
  refine mem_dropWhile (List.mem_reverse.2 (List.mem_map.2 ⟨'=', h.equals, ?_⟩)) ?_ <;> decide

theorem Ordinary.no_parent {part : String} (h : Ordinary part) :
    (part.toList.splitOnP (· = '\\')).any (· = ['.', '.']) = false := by
  rw [List.splitOnP_eq_singleton fun c hc => by simpa using (h.guarded c hc).2.1]
  have hne : part.toList ≠ ['.', '.'] := fun he => (h.guarded '.' (by simp [he])).2.2.1 rfl
  simp [hne]

/-- Every path of ordinary names below the root is accepted, or every one is rejected. -/
theorem resolveWithin_below {u : Unicode} (hu : u.Lawful) {os : Os} {top root : Path} (hl : LinkFree os top root) :
    (∀ rest, rest ≠ [] → (∀ part ∈ rest, Ordinary part) → resolveWithin u os (root ++ rest) [top] = .ok (root ++ rest)) ∨
      ∃ e, ∀ rest, rest ≠ [] → (∀ part ∈ rest, Ordinary part) → resolveWithin u os (root ++ rest) [top] = .error e := by
  have hdecide : ∀ rest, rest ≠ [] → (∀ part ∈ rest, Ordinary part) → resolveWithin u os (root ++ rest) [top] =
      if root.any ('\x00' ∈ ·.toList) then .error ⟨.pathTraversalError, "path contains a NUL byte"⟩
      else if hasParentSegment root then .error ⟨.pathTraversalError, "path contains a parent-directory segment"⟩
      else if root.any (isReserved u) then .error ⟨.pathTraversalError, "path refers to a reserved device name"⟩
      else .ok (root ++ rest) := by
    intro rest hne hrest
    have hnul : (root ++ rest).any ('\x00' ∈ ·.toList) = root.any ('\x00' ∈ ·.toList) := by
      have hnone : rest.any ('\x00' ∈ ·.toList) = false := List.any_eq_false.2 fun part hp => by
        simpa using fun hc => ((hrest part hp).guarded _ hc).1 rfl
      rw [List.any_append, hnone, Bool.or_false]
    have hparent : hasParentSegment (root ++ rest) = hasParentSegment root := by
      have hnone : hasParentSegment rest = false := List.any_eq_false.2 fun part hp => by
        simp [(hrest part hp).no_parent]
      rw [hasParentSegment, List.any_append]
      exact (congrArg _ hnone).trans (Bool.or_false _)
    have hreserved : (root ++ rest).any (isReserved u) = root.any (isReserved u) := by
      have hnone : rest.any (isReserved u) = false := List.any_eq_false.2 fun part hp => by
        simp [(hrest part hp).not_reserved hu]
      rw [List.any_append, hnone, Bool.or_false]
    have hstream : (root ++ rest).getLast?.any (':' ∈ ·.toList) = false := by
      rw [List.getLast?_append_of_ne_nil _ hne, List.getLast?_eq_some_getLast hne, Option.any_some]
      simpa using fun hc => ((hrest _ (List.getLast_mem hne)).guarded _ hc).2.2.2 rfl
    have hhazards : rejectPlatformHazards u (root ++ rest) = if root.any (isReserved u) then
        .error ⟨.pathTraversalError, "path refers to a reserved device name"⟩ else .ok () := by
      rw [rejectPlatformHazards, hreserved, hstream, if_neg Bool.false_ne_true]
    have hinside : [top].any (fun r => isWithin (root ++ rest) (os.resolve r)) = true := by
      rw [List.any_cons, hl.resolved, isWithin, List.isPrefixOf_iff_prefix.2 (hl.inside.trans (List.prefix_append _ _)),
        Bool.true_or]
    rw [resolveWithin, if_neg (List.cons_ne_nil _ _), hnul, hparent, hl.no_link rest hne, hl.below rest]
    split
    · rfl
    split
    · rfl
    rw [if_neg (by decide)]
    dsimp only
    rw [hinside, hhazards]
    split <;> rfl
  by_cases hnul : root.any ('\x00' ∈ ·.toList) = true
  · exact .inr ⟨_, fun rest hne hrest => (hdecide rest hne hrest).trans (if_pos hnul)⟩
  by_cases hparent : hasParentSegment root = true
  · exact .inr ⟨_, fun rest hne hrest => (hdecide rest hne hrest).trans (by rw [if_neg hnul, if_pos hparent])⟩
  by_cases hreserved : root.any (isReserved u) = true
  · exact .inr ⟨_, fun rest hne hrest => (hdecide rest hne hrest).trans (by rw [if_neg hnul, if_neg hparent, if_pos hreserved])⟩
  · exact .inl fun rest hne hrest => (hdecide rest hne hrest).trans (by rw [if_neg hnul, if_neg hparent, if_neg hreserved])

/-! ## Plain names -/

/-- A lower-case letter, a digit or a hyphen. -/
def isPlain (c : Char) : Bool := c.isDigit || c.isLower || c == '-'

theorem isPlain_range {c : Char} (h : isPlain c) : 45 ≤ c.val.toNat ∧ c.val.toNat ≤ 122 ∧ c ≠ '.' ∧ c ≠ '/' ∧
    c ≠ ':' ∧ c ≠ '<' ∧ c ≠ '>' ∧ c ≠ '?' ∧ c ≠ '\\' := by
  simp only [isPlain, Bool.or_eq_true, beq_iff_eq] at h
  rcases h with (h | h) | rfl
  · obtain ⟨h1, h2⟩ := Bool.and_eq_true_iff.1 h
    have h1 : 48 ≤ c.val.toNat := of_decide_eq_true h1
    have h2 : c.val.toNat ≤ 57 := of_decide_eq_true h2
    refine ⟨by omega, by omega, ?_, ?_, ?_, ?_, ?_, ?_, ?_⟩ <;> rintro rfl <;> revert h1 h2 <;> decide
  · obtain ⟨h1, h2⟩ := Bool.and_eq_true_iff.1 h
    have h1 : 97 ≤ c.val.toNat := of_decide_eq_true h1
    have h2 : c.val.toNat ≤ 122 := of_decide_eq_true h2
    refine ⟨by omega, by omega, ?_, ?_, ?_, ?_, ?_, ?_, ?_⟩ <;> rintro rfl <;> revert h1 h2 <;> decide
  · decide

theorem isPlain_ascii {c : Char} (h : isPlain c) : c.val < 128 :=
  UInt32.lt_iff_toNat_lt.2 (Nat.lt_of_le_of_lt (isPlain_range h).2.1 (by decide))

/-- Upper-casing makes letters only. -/
theorem toUpper_ne {c d : Char} (hd : d.val.toNat < 65) (h : c ≠ d) : c.toUpper ≠ d := by
  intro he
  have hv : c.toUpper.val.toNat = d.val.toNat := by rw [he]
  unfold Char.toUpper at hv
  split at hv
  · next hl =>
    have h2 : 97 ≤ c.val.toNat := hl.1
    have h3 : c.val.toNat ≤ 122 := hl.2
    have h4 : ('A'.val - 'a'.val : UInt32).toNat = 4294967264 := by decide
    simp only [UInt32.toNat_add, h4] at hv
    omega
  · exact h (Char.ext (UInt32.toNat_inj.1 hv))

theorem isPlain_upper {c : Char} (h : isPlain c) : c.toUpper ≠ '.' := toUpper_ne (by decide) (isPlain_range h).2.2.1

theorem not_isSpace {c : Char} (h : isPlain c) : isSpace c = false := by
  obtain ⟨h1, h2, -⟩ := isPlain_range h
  have h1 : 45 ≤ c.toNat := h1
  have h2 : c.toNat ≤ 122 := h2
  simp only [isSpace, Bool.or_eq_false_iff, Bool.and_eq_false_iff, decide_eq_false_iff_not]
  omega

theorem not_isUnsafe {c : Char} (h : isPlain c) : isUnsafe c = false := by
  obtain ⟨h1, h2, h3, h4, h5, h6, h7, h8, h9⟩ := isPlain_range h
  have h1 : 45 ≤ c.toNat := h1
  have h2 : c.toNat ≤ 122 := h2
  have hq : c ≠ '"' := by rintro rfl; revert h1; decide
  have hs : c ≠ '*' := by rintro rfl; revert h1; decide
  have hp : c ≠ '|' := by rintro rfl; revert h2; decide
  simp only [isUnsafe, Bool.or_eq_false_iff, decide_eq_false_iff_not, List.mem_cons, List.not_mem_nil, or_false]
  exact ⟨by omega, by simp [*]⟩

theorem not_isBlankOrDot {c : Char} (h : isPlain c) : isBlankOrDot c = false := by
  obtain ⟨h1, -, h3, -⟩ := isPlain_range h
  have hb : c ≠ ' ' := by rintro rfl; revert h1; decide
  simp [isBlankOrDot, h3, hb]

theorem dropWhile_kept {p : Char → Bool} {s : List Char} (h : ∀ c ∈ s, p c = false) : s.dropWhile p = s := by
  cases s with
  | nil => rfl
  | cons c s => rw [List.dropWhile_cons_of_neg (by simp [h c List.mem_cons_self])]

theorem stripBy_eq {p : Char → Bool} {s : List Char} (h : ∀ c ∈ s, p c = false) : stripBy p s = s := by
  rw [stripBy, dropWhile_kept h, dropWhile_kept (fun c hc => h c (List.mem_reverse.1 hc)), List.reverse_reverse]

/-- Nothing is stripped on the right of a text that ends in what is not stripped. -/
theorem stripBy_append {p : Char → Bool} (s : List Char) {t : List Char} (hne : t ≠ []) (ht : ∀ c ∈ t, p c = false) :
    stripBy p (s ++ t) = s.dropWhile p ++ t := by
  have hleft : (s ++ t).dropWhile p = s.dropWhile p ++ t := by
    rw [List.dropWhile_append]
    split
    · next hempty => rw [List.isEmpty_iff.1 hempty, dropWhile_kept ht, List.nil_append]
    · rfl
  obtain ⟨c, r, hr⟩ := List.exists_cons_of_ne_nil (List.reverse_ne_nil_iff.2 hne)
  have hc : p c = false := ht c (List.mem_reverse.1 (hr ▸ List.mem_cons_self))
  rw [stripBy, hleft, List.reverse_append, hr, List.cons_append, List.dropWhile_cons_of_neg (by simp [hc]),
    ← List.cons_append, ← hr, ← List.reverse_append, List.reverse_reverse]

/-- A plain name longer than every reserved one, and not too long, is safe as it is. -/
theorem safeFilename_plain {u : Unicode} (hu : u.Lawful) (fallback : String) {maxLength : Nat} {name : String}
    (hp : ∀ c ∈ name.toList, isPlain c) (hmin : 4 < name.length) (hmax : name.length ≤ maxLength) :
    safeFilename u fallback maxLength name = name := by
  have hascii : ∀ c ∈ name.toList, c.val < 128 := fun c hc => isPlain_ascii (hp c hc)
  have h1 : stripBy isSpace (u.nfkc name).toList = name.toList := by
    rw [hu.nfkc_ascii name hascii, stripBy_eq fun c hc => not_isSpace (hp c hc)]
  have h2 : name.toList.map (fun c => if isUnsafe c then '_' else c) = name.toList := by
    rw [List.map_congr_left (g := id) fun c hc => by simp [not_isUnsafe (hp c hc)], List.map_id]
  have h3 : stripBy isBlankOrDot name.toList = name.toList := stripBy_eq fun c hc => not_isBlankOrDot (hp c hc)
  have h4 : (u.upper (String.ofList name.toList)).toList.takeWhile (· ≠ '.') = name.toList.map Char.toUpper := by
    rw [String.ofList_toList, hu.upper_ascii name hascii, String.toList_ofList, List.takeWhile_eq_self_iff]
    intro c hc
    obtain ⟨d, hd, rfl⟩ := List.mem_map.1 hc
    simpa using isPlain_upper (hp d hd)
  have hlen : name.toList.length = name.length := String.length_toList
  have h5 : String.ofList (name.toList.map Char.toUpper) ∉ windowsReserved := by
    intro hm
    have hshort : ∀ r ∈ windowsReserved, r.length ≤ 4 := by decide
    have := hshort _ hm
    rw [String.length_ofList, List.length_map, hlen] at this
    omega
  have h6 : name.toList ≠ [] := by
    intro h
    rw [h] at hlen
    simp only [List.length_nil] at hlen
    omega
  unfold safeFilename
  simp only [h1, h2, h3, h4]
  rw [if_neg (by simp only [not_or]; exact ⟨h6, h5⟩), cap, if_neg (by omega), String.ofList_toList]

end Paths

end LogAnalytics
