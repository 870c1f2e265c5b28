import Mathlib.Algebra.GroupWithZero.Nat
import Mathlib.Data.Fin.Basic
import Mathlib.Data.List.TakeWhile
/-!
# Text

A Python string: code points, of which the surrogates can stand alone. Such a string cannot
be encoded as UTF-8.
-/

namespace LogAnalytics

abbrev CodePoint := Fin 0x110000

abbrev Text := List CodePoint

instance CodePoint.neZero : NeZero 0x110000 := ⟨by decide⟩

instance CodePoint.lawfulBEq : LawfulBEq CodePoint := inferInstance

instance Text.lawfulBEq : LawfulBEq Text := inferInstance

/-- The code point of a character literal. -/
def CodePoint.ofChar (c : Char) : CodePoint := Fin.ofNat 0x110000 c.toNat

theorem CodePoint.ofChar_injective : Function.Injective CodePoint.ofChar := by
  intro a b h
  have hlt : ∀ c : Char, c.toNat < 0x110000 := fun c => by
    have hv : c.toNat < 0xD800 ∨ 0xDFFF < c.toNat ∧ c.toNat < 0x110000 := c.valid
    omega
  have hval := congrArg Fin.val h
  simp only [CodePoint.ofChar, Fin.ofNat, Nat.mod_eq_of_lt (hlt _)] at hval
  exact Char.toNat_inj.1 hval

namespace Text

def ofString (s : String) : Text := s.toList.map fun c => Fin.ofNat 0x110000 c.toNat

theorem ofString_injective : Function.Injective ofString := fun _ _ h =>
  String.toList_inj.1 ((List.map_inj_right fun _ _ heq => CodePoint.ofChar_injective heq).1 h)

def isSurrogate (c : CodePoint) : Bool := 0xD800 ≤ c.val && c.val < 0xE000

/-- UTF-8 can encode it. -/
def encodable (t : Text) : Bool := t.all (!isSurrogate ·)

theorem encodable_ofString (s : String) : encodable (ofString s) = true := by
  rw [encodable, ofString, List.all_map, List.all_eq_true]
  intro c _
  have hv : c.toNat < 0xD800 ∨ 0xDFFF < c.toNat ∧ c.toNat < 0x110000 := c.valid
  simp only [Function.comp_apply, isSurrogate, Fin.ofNat, Bool.not_eq_true', Bool.and_eq_false_imp,
    decide_eq_true_eq, decide_eq_false_iff_not]
  omega

theorem encodable_take {t : Text} (n : Nat) (h : encodable t = true) : encodable (t.take n) = true := by
  rw [encodable, List.all_eq_true] at h ⊢
  exact fun c hc => h c (List.mem_of_mem_take hc)

/-! ## Characters -/

def isAscii (t : Text) : Bool := t.all (·.val < 128)

/-- The characters `str.strip()` removes and `\s` matches. -/
def isSpace (c : CodePoint) : Bool :=
  let n := c.val
  (9 ≤ n && n ≤ 13) || (28 ≤ n && n ≤ 32) || n = 0x85 || n = 0xA0 || n = 0x1680 || (0x2000 ≤ n && n ≤ 0x200A) ||
    n = 0x2028 || n = 0x2029 || n = 0x202F || n = 0x205F || n = 0x3000

def strip (t : Text) : Text := ((t.dropWhile isSpace).reverse.dropWhile isSpace).reverse

def asciiLower (c : CodePoint) : CodePoint := if 65 ≤ c.val ∧ c.val ≤ 90 then c + 32 else c

def asciiUpper (c : CodePoint) : CodePoint := if 97 ≤ c.val ∧ c.val ≤ 122 then c - 32 else c

/-! ## Stripping -/

theorem dropWhile_eq_self {t : Text} (h : ∀ c ∈ t.head?, isSpace c = false) : t.dropWhile isSpace = t := by
  cases t with
  | nil => rfl
  | cons c t => exact List.dropWhile_cons_of_neg (by simp [h c rfl])

/-- A text that neither begins nor ends with a blank. -/
theorem strip_eq_self {t : Text} (hhead : ∀ c ∈ t.head?, isSpace c = false) (hlast : ∀ c ∈ t.getLast?, isSpace c = false) :
    t.strip = t := by
  rw [← List.head?_reverse] at hlast
  rw [strip, dropWhile_eq_self hhead, dropWhile_eq_self hlast, List.reverse_reverse]

theorem strip_word {t : Text} (h : ∀ c ∈ t, isSpace c = false) : t.strip = t :=
  strip_eq_self (fun c hc => h c (List.mem_of_mem_head? hc)) fun c hc => h c (List.mem_of_mem_getLast? hc)

theorem mem_strip {c : CodePoint} {t : Text} (h : c ∈ t.strip) : c ∈ t := by
  unfold strip at h
  have h := (List.dropWhile_sublist _).mem (List.mem_reverse.1 h)
  exact (List.dropWhile_sublist _).mem (List.mem_reverse.1 h)

theorem all_space_of_strip {t : Text} (h : t.strip = []) : ∀ c ∈ t, isSpace c = true := by
  unfold strip at h
  rw [List.reverse_eq_nil_iff, List.dropWhile_eq_nil_iff] at h
  have hnil : t.dropWhile isSpace = [] := by
    cases hdrop : t.dropWhile isSpace with
    | nil => rfl
    | cons c rest =>
      have hspace := h c (by simp [hdrop])
      have hhead := List.head?_dropWhile_not isSpace t
      simp [hdrop, hspace] at hhead
  exact List.dropWhile_eq_nil_iff.1 hnil

theorem strip_eq_nil_iff {t : Text} : t.strip = [] ↔ ∀ c ∈ t, isSpace c = true := by
  refine ⟨all_space_of_strip, fun h => ?_⟩
  rw [strip, List.dropWhile_eq_nil_iff.2 h]
  rfl

end Text

/-- The parts of a `Path`. -/
abbrev FilePath := List Text

/-- `str.lower` and `str.upper`, which treat ASCII text as ASCII. -/
structure TextCase where
  lower : Text → Text
  upper : Text → Text
  lower_ascii : ∀ t, t.isAscii = true → lower t = t.map Text.asciiLower
  upper_ascii : ∀ t, t.isAscii = true → upper t = t.map Text.asciiUpper

/-- The ASCII rules applied to every character. -/
def asciiCase : TextCase where
  lower t := t.map Text.asciiLower
  upper t := t.map Text.asciiUpper
  lower_ascii _ _ := rfl
  upper_ascii _ _ := rfl

end LogAnalytics
