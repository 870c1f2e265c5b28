import Mathlib.Algebra.Order.Floor.Semifield
import LogAnalytics.Lib.Digits
import LogAnalytics.Parsers.Coerce
import LogAnalytics.Timestamps
/-!
# Epoch timestamps

A count of seconds, milli-, micro- or nanoseconds is told by its number of digits. Between 1990
and 2100 the four have 9 and 10, 12 and 13, 15 and 16, 18 and 19 digits.
-/
open LogAnalytics.Lib

namespace LogAnalytics

/-- The library reads ASCII digits, and the number they are. -/
structure ReadsDigits (p : TimeParsers) : Prop where
  decimal : ∀ c, Text.isAsciiDigit c = true → p.isDecimal c = true
  float : ∀ n : Nat, p.float (Text.ofString (toString n)) = some (.finite n)

namespace Timeutil

theorem asciiDigit_ne {c : CodePoint} (h : Text.isAsciiDigit c = true) {d : Char} (hd : Text.isAsciiDigit (char d) = false) :
    c ≠ char d := by
  rintro rfl
  rw [h] at hd
  cases hd

theorem isSpace_asciiDigit {c : CodePoint} (h : Text.isAsciiDigit c = true) : Text.isSpace c = false := by
  simp only [Text.isAsciiDigit, Bool.and_eq_true, decide_eq_true_eq] at h
  simp only [Text.isSpace, Bool.or_eq_false_iff, Bool.and_eq_false_iff, decide_eq_false_iff_not]
  omega

section Digits

variable {p : TimeParsers} {t : Text}

theorem unbracket_digits (h : ∀ c ∈ t, Text.isAsciiDigit c = true) : unbracket t = t :=
  if_neg fun hbracket => asciiDigit_ne (h _ (List.mem_of_mem_head? hbracket.1)) (by decide) rfl

/-- The pattern takes 9 to 19 digits. -/
theorem isEpoch_digits (hp : ReadsDigits p) (h : ∀ c ∈ t, Text.isAsciiDigit c = true) (hmin : 9 ≤ t.length)
    (hmax : t.length ≤ 19) : isEpoch p t = true := by
  have hnewline : t.getLast? ≠ some (char '\n') := fun hlast =>
    asciiDigit_ne (h _ (List.mem_of_mem_getLast? hlast)) (by decide) rfl
  have hdecimal : ∀ c ∈ t, p.isDecimal c = true := fun c hc => hp.decimal c (h c hc)
  simp only [isEpoch, if_neg hnewline, List.takeWhile_eq_self_iff.2 hdecimal, List.dropWhile_eq_nil_iff.2 hdecimal,
    hmin, hmax, decide_true, Bool.and_self]

end Digits

theorem asciiDigit_toString {n : Nat} : ∀ c ∈ Text.ofString (toString n), Text.isAsciiDigit c = true := by
  intro c hc
  rw [Nat.toString_eq_ofList_toDigits, Text.ofString, String.toList_ofList] at hc
  obtain ⟨d, hd, rfl⟩ := List.mem_map.1 hc
  have hbounds := digit_bounds (Nat.isDigit_of_mem_toDigits (by decide) (by decide) hd)
  simp only [Text.isAsciiDigit, Fin.ofNat, Bool.and_eq_true, decide_eq_true_eq]
  omega

theorem length_toString_le {n k : Nat} (hk : 0 < k) : (Text.ofString (toString n)).length ≤ k ↔ n < 10 ^ k := by
  rw [Nat.toString_eq_ofList_toDigits, Text.ofString, String.toList_ofList, List.length_map]
  exact Nat.length_toDigits_le_iff (by decide) hk

/-- What the code takes the counts of its number of digits for. -/
def guessedUnit (n : Nat) : Nat :=
  if n < 10 ^ 10 then 1 else if n < 10 ^ 13 then 1000 else if n < 10 ^ 16 then 1000000 else 1000000000

theorem fromEpoch_digits {p : TimeParsers} (hp : ReadsDigits p) (n : Nat) :
    fromEpoch p (Text.ofString (toString n)) = fromtimestamp (.finite (n / guessedUnit n)) := by
  have hwhole : (Text.ofString (toString n)).takeWhile (· ≠ char '.') = Text.ofString (toString n) :=
    List.takeWhile_eq_self_iff.2 fun c hc => decide_eq_true (asciiDigit_ne (asciiDigit_toString c hc) (by decide))
  simp only [fromEpoch, hp.float, Option.bind_some, hwhole]
  rw [guessedUnit]
  simp only [length_toString_le (show 0 < 10 by decide), length_toString_le (show 0 < 13 by decide),
    length_toString_le (show 0 < 16 by decide), PyFloat.divide]
  split
  · rw [Nat.cast_one, div_one]
  · split
    · rfl
    · split <;> rfl

theorem parseTimestamp_digits {p : TimeParsers} (hp : ReadsDigits p) (now : Clock) (defaultYear : Option Nat) {n : Nat}
    (hmin : 10 ^ 8 ≤ n) (hmax : n < 10 ^ 19) {c : Clock} (hc : fromtimestamp (.finite (n / guessedUnit n)) = some c) :
    parseTimestamp p now defaultYear (.str (Text.ofString (toString n))) = .ok (bounded c) := by
  have hdigits := @asciiDigit_toString n
  have hlow : 9 ≤ (Text.ofString (toString n)).length := by
    by_contra hshort
    exact absurd ((length_toString_le (by decide)).1 (Nat.le_of_lt_succ (Nat.not_le.1 hshort))) (Nat.not_lt.2 hmin)
  have hhigh : (Text.ofString (toString n)).length ≤ 19 := (length_toString_le (by decide)).2 hmax
  have hstrip : (Text.ofString (toString n)).strip = Text.ofString (toString n) :=
    Text.strip_word fun c hc => isSpace_asciiDigit (hdigits c hc)
  have hne : Text.ofString (toString n) ≠ [] := fun hnil => by
    rw [hnil] at hlow
    cases hlow
  simp only [parseTimestamp, hstrip, if_neg hne, parseText, unbracket_digits hdigits, isEpoch_digits hp hdigits hlow hhigh,
    fromEpoch_digits hp n, hc, if_true]

/-! ## The units -/

/-- The units of an epoch timestamp. -/
inductive EpochUnit where
  | seconds | milliseconds | microseconds | nanoseconds

def EpochUnit.perSecond : EpochUnit → Nat
  | seconds => 1
  | milliseconds => 1000
  | microseconds => 1000000
  | nanoseconds => 1000000000

/-- A number of seconds since the epoch, rounded down to whole units. -/
def EpochUnit.count (unit : EpochUnit) (instant : ℚ) : Nat := ⌊instant * unit.perSecond⌋₊

/-- A reading as a number of seconds since the epoch. -/
def sinceEpoch (c : Clock) : ℚ := ((c.micros : ℚ) - epochMicros) / 10 ^ 6

theorem micros_minTimestamp : minTimestamp.micros = epochMicros + 631152000 * 10 ^ 6 := by decide

theorem micros_maxTimestamp : maxTimestamp.micros = epochMicros + 4102444800 * 10 ^ 6 := by decide

theorem sinceEpoch_min : sinceEpoch minTimestamp = 631152000 := by
  rw [sinceEpoch, micros_minTimestamp]
  push_cast
  ring

theorem sinceEpoch_max : sinceEpoch maxTimestamp = 4102444800 := by
  rw [sinceEpoch, micros_maxTimestamp]
  push_cast
  ring

theorem EpochUnit.perSecond_pos (unit : EpochUnit) : (0 : ℚ) < unit.perSecond := by cases unit <;> norm_num [perSecond]

/-- Between 1990 and 2100 the number of digits gives the unit away. -/
theorem EpochUnit.guessedUnit_eq (unit : EpochUnit) {n : Nat} (hmin : 631152000 * unit.perSecond ≤ n)
    (hmax : n ≤ 4102444800 * unit.perSecond) : guessedUnit n = unit.perSecond := by
  unfold guessedUnit
  cases unit <;> simp only [perSecond] at hmin hmax ⊢ <;> split_ifs <;> omega

variable {p : TimeParsers}

/-- A moment between 1990 and 2100, rounded down to a unit and written as a number, is read as
that moment, to the microsecond. -/
theorem parseTimestamp_count (hp : ReadsDigits p) (now : Clock) (defaultYear : Option Nat) (unit : EpochUnit) {instant : ℚ}
    (hmin : sinceEpoch minTimestamp ≤ instant) (hmax : instant ≤ sinceEpoch maxTimestamp) :
    ∃ c, parseTimestamp p now defaultYear (.str (Text.ofString (toString (unit.count instant)))) = .ok (some c) ∧
      (c.micros : ℤ) = epochMicros + ⌊(unit.count instant : ℚ) / unit.perSecond * 10 ^ 6⌋ := by
  rw [sinceEpoch_min] at hmin
  rw [sinceEpoch_max] at hmax
  have hpos := unit.perSecond_pos
  have hlow : 631152000 * unit.perSecond ≤ unit.count instant := Nat.le_floor (by
    push_cast
    exact mul_le_mul_of_nonneg_right hmin hpos.le)
  have hhigh : unit.count instant ≤ 4102444800 * unit.perSecond := Nat.floor_le_of_le (by
    push_cast
    exact mul_le_mul_of_nonneg_right hmax hpos.le)
  have hguess := unit.guessedUnit_eq hlow hhigh
  generalize unit.count instant = n at *
  -- the bounds of the moment are bounds of the microseconds read
  have hlow' : (631152000 : ℚ) ≤ n / unit.perSecond := (le_div_iff₀ hpos).2 (by exact_mod_cast hlow)
  have hhigh' : (n : ℚ) / unit.perSecond ≤ 4102444800 := (div_le_iff₀ hpos).2 (by exact_mod_cast hhigh)
  have hfloorlow : 631152000 * 10 ^ 6 ≤ ⌊(n : ℚ) / unit.perSecond * 10 ^ 6⌋ := Int.le_floor.2 (by
    push_cast
    linarith)
  have hfloorhigh : ⌊(n : ℚ) / unit.perSecond * 10 ^ 6⌋ ≤ 4102444800 * 10 ^ 6 := by
    have hle : (n : ℚ) / unit.perSecond * 10 ^ 6 ≤ ((4102444800 * 10 ^ 6 : ℤ) : ℚ) := by
      push_cast
      linarith
    exact_mod_cast (Int.floor_le _).trans hle
  generalize hmicros : ⌊(n : ℚ) / unit.perSecond * 10 ^ 6⌋ = micros at *
  have hfirst := micros_minTimestamp
  have hlast := micros_maxTimestamp
  have hend := maxTimestamp.lt_end
  obtain ⟨c, hc⟩ : ∃ c : Clock, (c.micros : ℤ) = epochMicros + micros :=
    ⟨⟨(epochMicros + micros).toNat, by omega⟩, by dsimp only; omega⟩
  have hread : fromtimestamp (.finite (n / guessedUnit n)) = some c := by
    rw [hguess, fromtimestamp, hmicros, Clock.ofMicros_ok.2 hc.symm]
    rfl
  have hbounded : bounded c = some c := if_pos ⟨Clock.le_def.2 (by omega), Clock.le_def.2 (by omega)⟩
  have hone : 1 ≤ unit.perSecond := by exact_mod_cast hpos
  have hnine : unit.perSecond ≤ 10 ^ 9 := by cases unit <;> decide
  refine ⟨c, ?_, hc⟩
  rw [parseTimestamp_digits hp now defaultYear (by omega) (by omega) hread, hbounded]

/-! ## A library that reads digits -/

theorem digitsValue_map (digits : List Char) :
    Text.digitsValue (digits.map fun c => Fin.ofNat 0x110000 c.toNat) = Nat.ofDigitChars 10 digits 0 := by
  have hval : ∀ c : Char, (Fin.ofNat 0x110000 c.toNat).val = c.toNat := fun c => by
    have hv : c.toNat < 0xD800 ∨ 0xDFFF < c.toNat ∧ c.toNat < 0x110000 := c.valid
    exact Nat.mod_eq_of_lt (by omega)
  unfold Text.digitsValue Nat.ofDigitChars
  rw [List.foldl_map]
  simp only [hval]
  rfl

theorem digitsValue_toString (n : Nat) : Text.digitsValue (Text.ofString (toString n)) = n := by
  rw [Nat.toString_eq_ofList_toDigits, Text.ofString, String.toList_ofList, digitsValue_map, Nat.ofDigitChars_ten_toDigits]

/-- Reads ASCII digits, and no other number or date. -/
def digitParsers : TimeParsers where
  decimal c := if Text.isAsciiDigit c then some (c.val - 48) else none
  float text := if text.all Text.isAsciiDigit then some (.finite text.digitsValue) else none
  reprFloat _ := []
  fromisoformat _ := none
  strptime _ _ := none
  dateutil _ _ := none

theorem digitParsers_readsDigits : ReadsDigits digitParsers where
  decimal _ h := congrArg Option.isSome (if_pos h)
  float n :=
    (if_pos (List.all_eq_true.2 asciiDigit_toString)).trans (congrArg (some <| PyFloat.finite ·) (by rw [digitsValue_toString]))

/-- A time of November 2023, in milliseconds. -/
theorem parseTimestamp_count_milliseconds :
    ∃ c, parseTimestamp digitParsers minTimestamp none
        (.str (Text.ofString (toString (EpochUnit.milliseconds.count (1700000000 + 1 / 3))))) = .ok (some c) ∧
      (c.micros : ℤ) = epochMicros +
        ⌊(EpochUnit.milliseconds.count (1700000000 + 1 / 3) : ℚ) / EpochUnit.milliseconds.perSecond * 10 ^ 6⌋ :=
  parseTimestamp_count digitParsers_readsDigits minTimestamp none .milliseconds
    (sinceEpoch_min.trans_le (by norm_num)) (le_of_le_of_eq (by norm_num) sinceEpoch_max.symm)

end Timeutil

end LogAnalytics
