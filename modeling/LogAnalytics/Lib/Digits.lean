import Mathlib.Algebra.GroupWithZero.Nat
import Mathlib.Data.List.Basic
/-!
# Padded decimal numbers

A number written in decimal digits and filled up with zeros to a width. The digits still are
the number, and only a number too long for the width makes it longer.
-/

namespace LogAnalytics.Lib

/-- The decimal digits of `n`, with zeros in front up to `width`. -/
def zeroPad (width n : Nat) : List Char :=
  List.replicate (width - (Nat.toDigits 10 n).length) '0' ++ Nat.toDigits 10 n

theorem zeroPad_isDigit {width n : Nat} : ∀ c ∈ zeroPad width n, c.isDigit := by
  intro c hc
  rcases List.mem_append.1 hc with hc | hc
  · rw [List.eq_of_mem_replicate hc]; decide
  · exact Nat.isDigit_of_mem_toDigits (by decide) (by decide) hc

theorem ofDigitChars_zeroPad (width n : Nat) : Nat.ofDigitChars 10 (zeroPad width n) 0 = n := by
  rw [zeroPad, Nat.ofDigitChars_append, Nat.ofDigitChars_replicate_zero, Nat.mul_zero, Nat.ofDigitChars_ten_toDigits]

theorem zeroPad_injective {width n m : Nat} (h : zeroPad width n = zeroPad width m) : n = m := by
  rw [← ofDigitChars_zeroPad width n, h, ofDigitChars_zeroPad]

theorem le_length_zeroPad (width n : Nat) : width ≤ (zeroPad width n).length := by
  simp only [zeroPad, List.length_append, List.length_replicate]
  omega

theorem length_zeroPad_le {width n k : Nat} (hw : width ≤ k) (hk : 0 < k) (hn : n < 10 ^ k) :
    (zeroPad width n).length ≤ k := by
  have h := (Nat.length_toDigits_le_iff (by decide) hk).2 hn
  simp only [zeroPad, List.length_append, List.length_replicate]
  omega

/-- A field of known width ends where it ends. -/
theorem zeroPad_append_inj {k n m : Nat} {s t : List Char} (hk : 0 < k) (hn : n < 10 ^ k) (hm : m < 10 ^ k)
    (h : zeroPad k n ++ s = zeroPad k m ++ t) : n = m ∧ s = t := by
  have hlen : ∀ {i : Nat}, i < 10 ^ k → (zeroPad k i).length = k := fun hi =>
    Nat.le_antisymm (length_zeroPad_le (Nat.le_refl k) hk hi) (le_length_zeroPad k _)
  obtain ⟨hpad, hrest⟩ := List.append_inj h ((hlen hn).trans (hlen hm).symm)
  exact ⟨zeroPad_injective hpad, hrest⟩

theorem length_zeroPad {k n : Nat} (hk : 0 < k) (hn : n < 10 ^ k) : (zeroPad k n).length = k :=
  Nat.le_antisymm (length_zeroPad_le (Nat.le_refl k) hk hn) (le_length_zeroPad k n)

theorem length_zeroPad_le_iff {width n k : Nat} (hw : width ≤ k) (hk : 0 < k) :
    (zeroPad width n).length ≤ k ↔ n < 10 ^ k := by
  refine ⟨fun h => (Nat.length_toDigits_le_iff (by decide) hk).1 ?_, length_zeroPad_le hw hk⟩
  simp only [zeroPad, List.length_append, List.length_replicate] at h
  omega

theorem length_zeroPad_mono {width n m : Nat} (hw : 0 < width) (h : n ≤ m) :
    (zeroPad width n).length ≤ (zeroPad width m).length := by
  have hle := le_length_zeroPad width m
  have hm := (length_zeroPad_le_iff hle (by omega)).1 (Nat.le_refl _)
  exact (length_zeroPad_le_iff hle (by omega)).2 (Nat.lt_of_le_of_lt h hm)

/-- One more place takes one more digit. -/
theorem zeroPad_succ {width : Nat} (hw : 0 < width) (n : Nat) {d : Nat} (hd : d < 10) :
    zeroPad (width + 1) (10 * n + d) = zeroPad width n ++ [Nat.digitChar d] := by
  rcases Nat.eq_zero_or_pos n with rfl | hn
  · rw [Nat.mul_zero, Nat.zero_add, zeroPad, zeroPad, Nat.toDigits_of_lt_base hd, Nat.toDigits_zero,
      List.append_assoc]
    have hzeros : List.replicate (width - 1) '0' ++ ['0'] = List.replicate width '0' := by
      rw [← List.replicate_succ', Nat.sub_add_cancel hw]
    simp only [List.length_singleton, Nat.add_sub_cancel]
    rw [← List.append_assoc, hzeros]
  · have hdigits : Nat.toDigits 10 (10 * n + d) = Nat.toDigits 10 n ++ [Nat.digitChar d] := by
      rw [← Nat.toDigits_append_toDigits (by decide) hn hd, Nat.toDigits_of_lt_base hd]
    rw [zeroPad, zeroPad, hdigits, List.length_append, List.length_singleton, Nat.add_sub_add_right, List.append_assoc]

/-- A number that is long enough is not padded. -/
theorem zeroPad_of_le {width n : Nat} (h : 10 ^ width ≤ n) : zeroPad (width + 1) n = zeroPad width n := by
  have hlong : width < (Nat.toDigits 10 n).length := by
    by_contra hshort
    rcases Nat.eq_zero_or_pos width with rfl | hw
    · exact hshort Nat.length_toDigits_pos
    · have hlt : n < 10 ^ width := (Nat.length_toDigits_le_iff (by decide) hw).1 (Nat.not_lt.1 hshort)
      omega
  rw [zeroPad, zeroPad, Nat.sub_eq_zero_of_le hlong, Nat.sub_eq_zero_of_le (Nat.le_of_lt hlong)]

/-! ## The order of the texts -/

theorem append_lt_append {xs ys s t : List Char} (hlen : xs.length = ys.length) :
    xs ++ s < ys ++ t ↔ xs < ys ∨ xs = ys ∧ s < t := by
  induction xs generalizing ys with
  | nil =>
    rw [List.length_nil, eq_comm, List.length_eq_zero_iff] at hlen
    subst hlen
    simp
  | cons x xs ih =>
    cases ys with
    | nil => cases hlen
    | cons y ys =>
      rw [List.length_cons, List.length_cons, Nat.add_right_cancel_iff] at hlen
      rw [List.cons_append, List.cons_append, List.cons_lt_cons_iff, List.cons_lt_cons_iff, ih hlen, List.cons.injEq]
      tauto

theorem ofDigitChars_cons_zero (c : Char) (cs : List Char) :
    Nat.ofDigitChars 10 (c :: cs) 0 = 10 ^ cs.length * (c.toNat - 48) + Nat.ofDigitChars 10 cs 0 := by
  rw [Nat.ofDigitChars_cons, Nat.ofDigitChars_eq_ofDigitChars_zero, Nat.mul_zero, Nat.zero_add]
  rfl

theorem digit_bounds {c : Char} (h : c.isDigit = true) : 48 ≤ c.toNat ∧ c.toNat ≤ 57 := by
  simp only [Char.isDigit, Bool.and_eq_true, decide_eq_true_eq] at h
  exact h

theorem ofDigitChars_lt {cs : List Char} (h : ∀ c ∈ cs, c.isDigit) : Nat.ofDigitChars 10 cs 0 < 10 ^ cs.length := by
  induction cs with
  | nil => simp
  | cons c cs ih =>
    obtain ⟨hc, hcs⟩ := List.forall_mem_cons.1 h
    have hlt := ih hcs
    have hdigit := digit_bounds hc
    have hmul : 10 ^ cs.length * (c.toNat - 48) ≤ 10 ^ cs.length * 9 := Nat.mul_le_mul_left _ (by omega)
    rw [ofDigitChars_cons_zero, List.length_cons, Nat.pow_succ]
    omega

/-- Digit strings of one length are ordered as their numbers. -/
theorem digits_lt {xs ys : List Char} (hx : ∀ c ∈ xs, c.isDigit) (hy : ∀ c ∈ ys, c.isDigit) (hlen : xs.length = ys.length) :
    xs < ys ↔ Nat.ofDigitChars 10 xs 0 < Nat.ofDigitChars 10 ys 0 := by
  induction xs generalizing ys with
  | nil =>
    rw [List.length_nil, eq_comm, List.length_eq_zero_iff] at hlen
    subst hlen
    simp
  | cons x xs ih =>
    cases ys with
    | nil => cases hlen
    | cons y ys =>
      obtain ⟨hx, hxs⟩ := List.forall_mem_cons.1 hx
      obtain ⟨hy, hys⟩ := List.forall_mem_cons.1 hy
      rw [List.length_cons, List.length_cons, Nat.add_right_cancel_iff] at hlen
      have hxlt := ofDigitChars_lt hxs
      have hylt := ofDigitChars_lt hys
      rw [← hlen] at hylt
      have hxd := digit_bounds hx
      have hyd := digit_bounds hy
      rw [List.cons_lt_cons_iff, ih hxs hys hlen, ofDigitChars_cons_zero, ofDigitChars_cons_zero, ← hlen]
      generalize Nat.ofDigitChars 10 xs 0 = a at *
      generalize Nat.ofDigitChars 10 ys 0 = b at *
      generalize 10 ^ xs.length = p at *
      have hchar : x < y ↔ x.toNat < y.toNat := Iff.rfl
      rcases Nat.lt_trichotomy x.toNat y.toNat with h | h | h
      · have hmul := Nat.mul_le_mul_left p (show x.toNat - 48 + 1 ≤ y.toNat - 48 by omega)
        rw [Nat.mul_succ] at hmul
        exact iff_of_true (.inl (hchar.2 h)) (by omega)
      · obtain rfl : x = y := Char.ext (UInt32.toNat_inj.1 h)
        simp
      · have hmul := Nat.mul_le_mul_left p (show y.toNat - 48 + 1 ≤ x.toNat - 48 by omega)
        rw [Nat.mul_succ] at hmul
        refine iff_of_false ?_ (by omega)
        rintro (hlt | ⟨rfl, -⟩)
        · exact absurd (hchar.1 hlt) (by omega)
        · omega

/-- A field of known width decides, or what comes after it does. -/
theorem zeroPad_append_lt {k n m : Nat} {s t : List Char} (hk : 0 < k) (hn : n < 10 ^ k) (hm : m < 10 ^ k) :
    zeroPad k n ++ s < zeroPad k m ++ t ↔ n < m ∨ n = m ∧ s < t := by
  have hlen : (zeroPad k n).length = (zeroPad k m).length := by rw [length_zeroPad hk hn, length_zeroPad hk hm]
  rw [append_lt_append hlen, digits_lt zeroPad_isDigit zeroPad_isDigit hlen, ofDigitChars_zeroPad, ofDigitChars_zeroPad]
  exact or_congr_right (and_congr_left' ⟨zeroPad_injective, congrArg _⟩)

end LogAnalytics.Lib
