import Mathlib.Data.List.Basic
import LogAnalytics.Lib.Digits
/-!
# JSON texts

Strings are written with `"`, `\` and the control characters escaped and everything else as it is; a
decoder reads every JSON text, by recursive descent. The decoder gives back the members of an object
of strings, natural numbers and nulls.
-/

namespace LogAnalytics.Lib.Json

abbrev Code := Fin 0x110000

def code (c : Char) : Code := Fin.ofNat 0x110000 c.toNat

def codes (s : String) : List Code := s.toList.map code

/-- A JSON value. A number with a fraction or an exponent is its text. -/
inductive Value where
  | null
  | bool (b : Bool)
  | int (z : Int)
  | float (text : List Code)
  | str (text : List Code)
  | arr (items : List Value)
  | obj (members : List (List Code × Value))

/-! ## Strings -/

/-- A hexadecimal digit. -/
def hexDigit (n : Nat) : Code := Fin.ofNat 0x110000 (if n < 10 then 48 + n else 87 + n)

def hexValue (c : Code) : Option Nat :=
  if 48 ≤ c.val ∧ c.val ≤ 57 then some (c.val - 48)
  else if 97 ≤ c.val ∧ c.val ≤ 102 then some (c.val - 87)
  else if 65 ≤ c.val ∧ c.val ≤ 70 then some (c.val - 55)
  else none

/-- The letters of the short escapes. -/
def shortEscapes : List (Code × Code) :=
  [(code '"', code '"'), (code '\\', code '\\'), (code 'b', code '\x08'), (code 'f', code '\x0c'), (code 'n', code '\n'),
    (code 'r', code '\r'), (code 't', code '\t')]

def escapeCode (c : Code) : List Code :=
  match shortEscapes.find? (·.2 = c) with
  | some (letter, _) => [code '\\', letter]
  | none =>
    if c.val < 32 then [code '\\', code 'u', code '0', code '0', hexDigit (c.val / 16), hexDigit (c.val % 16)]
    else [c]

def quote (text : List Code) : List Code := code '"' :: (text.flatMap escapeCode ++ [code '"'])

/-- The number that four hexadecimal digits stand for, and what is behind them. -/
def hex4 : List Code → Option (Nat × List Code)
  | a :: b :: c :: d :: rest =>
    match hexValue a, hexValue b, hexValue c, hexValue d with
    | some a, some b, some c, some d => some (((a * 16 + b) * 16 + c) * 16 + d, rest)
    | _, _, _, _ => none
  | _ => none

/-- The escaped low surrogate behind a high one. -/
def lowSurrogate (high : Nat) (text : List Code) : Option (Nat × List Code) :=
  match text with
  | a :: b :: rest =>
    if (0xD800 ≤ high ∧ high < 0xDC00) ∧ a = code '\\' ∧ b = code 'u' then
      (hex4 rest).filter fun low => 0xDC00 ≤ low.1 ∧ low.1 < 0xE000
    else none
  | _ => none

/-- One escape: what comes behind a backslash. -/
def scanEscape : List Code → Option (Code × List Code)
  | [] => none
  | letter :: rest =>
    if letter = code 'u' then
      match hex4 rest with
      | none => none
      | some (u, rest) =>
        match lowSurrogate u rest with
        | some (low, rest) => some (Fin.ofNat 0x110000 (0x10000 + (u - 0xD800) * 0x400 + (low - 0xDC00)), rest)
        | none => some (Fin.ofNat 0x110000 u, rest)
    else if letter = code '/' then some (letter, rest)
    else (shortEscapes.find? (·.1 = letter)).map fun e => (e.2, rest)

/-- The rest of a string behind the quote that opens it, with `fuel` characters left. -/
def scanString : Nat → List Code → Option (List Code × List Code)
  | 0, _ | _, [] => none
  | fuel + 1, c :: rest =>
    if c = code '"' then some ([], rest)
    else if c = code '\\' then
      match scanEscape rest with
      | none => none
      | some (d, rest) => (scanString fuel rest).map fun x => (d :: x.1, x.2)
    else if c.val < 32 then none
    else (scanString fuel rest).map fun x => (c :: x.1, x.2)

/-! ## Numbers -/

def isDigit (c : Code) : Bool := 48 ≤ c.val && c.val ≤ 57

def digitsValue (digits : List Code) : Nat := digits.foldl (fun n d => 10 * n + (d.val - 48)) 0

/-- A longer integer is not read. -/
def maxDigits : Nat := 4300

/-- Digits behind a point. -/
def fraction (text : List Code) : List Code × List Code :=
  match text with
  | point :: d :: rest =>
    if point = code '.' ∧ isDigit d then (point :: d :: rest.takeWhile isDigit, rest.dropWhile isDigit) else ([], text)
  | _ => ([], text)

/-- Digits behind an `e`, with or without a sign. -/
def exponent (text : List Code) : List Code × List Code :=
  match text with
  | e :: rest =>
    if e = code 'e' ∨ e = code 'E' then
      let sign := rest.take (if rest.head? = some (code '+') ∨ rest.head? = some (code '-') then 1 else 0)
      let digits := (rest.drop sign.length).takeWhile isDigit
      if digits = [] then ([], text) else (e :: (sign ++ digits), (rest.drop sign.length).dropWhile isDigit)
    else ([], text)
  | [] => ([], text)

/-- A number behind its sign. -/
def scanUnsigned (negative : Bool) : List Code → Option (Value × List Code)
  | [] => none
  | c :: rest =>
    if isDigit c then
      let digits := if c = code '0' then [c] else c :: rest.takeWhile isDigit
      let (frac, rest) := fraction (if c = code '0' then rest else rest.dropWhile isDigit)
      let (exp, rest) := exponent rest
      if frac ≠ [] ∨ exp ≠ [] then
        some (.float ((if negative then [code '-'] else []) ++ digits ++ frac ++ exp), rest)
      else if maxDigits < digits.length then none
      else some (.int (if negative then -digitsValue digits else digitsValue digits), rest)
    else none

def scanNumber (text : List Code) : Option (Value × List Code) :=
  if text.head? = some (code '-') then scanUnsigned true text.tail else scanUnsigned false text

/-! ## Values -/

/-- The words, among them those of the numbers that are none. -/
def words : List (List Code × Value) :=
  [(codes "null", .null), (codes "true", .bool true), (codes "false", .bool false), (codes "NaN", .float (codes "NaN")),
    (codes "Infinity", .float (codes "Infinity")), (codes "-Infinity", .float (codes "-Infinity"))]

def scanWord (text : List Code) : Option (Value × List Code) :=
  (words.find? fun word => word.1.isPrefixOf text).map fun word => (word.2, text.drop word.1.length)

def isBlank (c : Code) : Bool := c = code ' ' || c = code '\t' || c = code '\n' || c = code '\r'

def skip (text : List Code) : List Code := text.dropWhile isBlank

/-- A member that is there already keeps its place. -/
def setMember (members : List (List Code × Value)) (key : List Code) (value : Value) : List (List Code × Value) :=
  if members.any (·.1 = key) then members.map fun m => if m.1 = key then (key, value) else m
  else members ++ [(key, value)]

mutual

/-- A value at the start of a text, and what is behind it. -/
def scanValue : Nat → List Code → Option (Value × List Code)
  | 0, _ | _, [] => none
  | fuel + 1, c :: rest =>
    if c = code '"' then (scanString rest.length rest).map fun x => (.str x.1, x.2)
    else if c = code '{' then
      if (skip rest).head? = some (code '}') then some (.obj [], (skip rest).tail) else scanMembers fuel [] (skip rest)
    else if c = code '[' then
      if (skip rest).head? = some (code ']') then some (.arr [], (skip rest).tail) else scanItems fuel [] (skip rest)
    else (scanWord (c :: rest)).or (scanNumber (c :: rest))

/-- The members of an object, from the next one on. -/
def scanMembers : Nat → List (List Code × Value) → List Code → Option (Value × List Code)
  | 0, _, _ | _, _, [] => none
  | fuel + 1, members, c :: rest =>
    if c ≠ code '"' then none
    else
      match scanString rest.length rest with
      | none => none
      | some (key, rest) =>
        if (skip rest).head? ≠ some (code ':') then none
        else
          match scanValue fuel (skip (skip rest).tail) with
          | none => none
          | some (value, rest) =>
            match skip rest with
            | [] => none
            | d :: rest =>
              if d = code '}' then some (.obj (setMember members key value), rest)
              else if d = code ',' then scanMembers fuel (setMember members key value) (skip rest)
              else none

/-- The items of an array, from the next one on. -/
def scanItems : Nat → List Value → List Code → Option (Value × List Code)
  | 0, _, _ => none
  | fuel + 1, items, text =>
    match scanValue fuel text with
    | none => none
    | some (value, rest) =>
      match skip rest with
      | [] => none
      | d :: rest =>
        if d = code ']' then some (.arr (items ++ [value]), rest)
        else if d = code ',' then scanItems fuel (items ++ [value]) (skip rest)
        else none

end

/-- The value of a text; `none` if it is not JSON. -/
def loads (text : List Code) : Option Value :=
  match scanValue (text.length + 1) (skip text) with
  | none => none
  | some (value, rest) => if skip rest = [] then some value else none

/-! ## Flat objects -/

/-- A value without parts. -/
inductive Scalar where
  | null
  | nat (n : Nat)
  | str (text : List Code)

namespace Scalar

def toValue : Scalar → Value
  | .null => .null
  | .nat n => .int n
  | .str text => .str text

def dumps : Scalar → List Code
  | .null => codes "null"
  | .nat n => (Nat.toDigits 10 n).map code
  | .str text => quote text

end Scalar

def dumpMember (member : List Code × Scalar) : List Code := quote member.1 ++ codes ": " ++ member.2.dumps

def dumpMembers : List (List Code × Scalar) → List Code
  | [] => []
  | [member] => dumpMember member
  | member :: next :: members => dumpMember member ++ codes ", " ++ dumpMembers (next :: members)

def dumps (members : List (List Code × Scalar)) : List Code := code '{' :: (dumpMembers members ++ [code '}'])

/-! ## Strings read back -/

/-- A short escape is read back, and is none of the other escapes. -/
theorem shortEscapes_spec : ∀ e ∈ shortEscapes, e.1 ≠ code 'u' ∧ e.1 ≠ code '/' ∧
    shortEscapes.find? (·.1 = e.1) = some e := by
  have hall : shortEscapes.all (fun e => e.1 ≠ code 'u' && (e.1 ≠ code '/' && shortEscapes.find? (·.1 = e.1) = some e)) =
    true := by decide
  simpa using List.all_eq_true.1 hall

theorem hexValue_hexDigit : ∀ n < 16, hexValue (hexDigit n) = some n := by decide

theorem lowSurrogate_of_lt {u : Nat} (h : u < 0xD800) (text : List Code) : lowSurrogate u text = none := by
  unfold lowSurrogate
  rcases text with _ | ⟨a, _ | ⟨b, rest⟩⟩
  · rfl
  · rfl
  · exact if_neg fun hhigh => absurd hhigh.1.1 (Nat.not_le.2 h)

/-- One character of a string, escaped or not. -/
theorem scanString_escapeCode (fuel : Nat) (c : Code) (rest : List Code) :
    scanString (fuel + 1) (escapeCode c ++ rest) = (scanString fuel rest).map fun x => (c :: x.1, x.2) := by
  have hquote : code '\\' ≠ code '"' := by decide
  unfold escapeCode
  cases hshort : shortEscapes.find? (·.2 = c) with
  | some e =>
    obtain ⟨letter, d⟩ := e
    have hd : d = c := by simpa using List.find?_some hshort
    obtain ⟨hu, hslash, hfind⟩ := shortEscapes_spec _ (List.mem_of_find?_eq_some hshort)
    have hescape : scanEscape (letter :: rest) = some (c, rest) := by
      rw [scanEscape, if_neg hu, if_neg hslash, hfind, ← hd]
      rfl
    rw [List.cons_append, List.singleton_append, scanString, if_neg hquote, if_pos rfl, hescape]
  | none =>
    have hnone : ∀ e ∈ shortEscapes, e.2 ≠ c := fun e he heq => by
      simpa [heq] using List.find?_eq_none.1 hshort e he
    have hcquote : c ≠ code '"' := fun h => hnone (code '"', code '"') (by decide) h.symm
    have hcslash : c ≠ code '\\' := fun h => hnone (code '\\', code '\\') (by decide) h.symm
    dsimp only
    by_cases hcontrol : c.val < 32
    · have hescape : scanEscape (code 'u' :: code '0' :: code '0' :: hexDigit (c.val / 16) :: hexDigit (c.val % 16) :: rest) =
          some (c, rest) := by
        have hzero : hexValue (code '0') = some 0 := by decide
        have hvalue : ((0 * 16 + 0) * 16 + c.val / 16) * 16 + c.val % 16 = c.val := by omega
        have hcode : Fin.ofNat 0x110000 c.val = c := Fin.ext (Nat.mod_eq_of_lt c.isLt)
        rw [scanEscape, if_pos rfl, hex4, hzero, hexValue_hexDigit _ (by omega), hexValue_hexDigit _ (by omega)]
        dsimp only
        rw [hvalue, lowSurrogate_of_lt (by omega), hcode]
      rw [if_pos hcontrol]
      simp only [List.cons_append, List.nil_append]
      rw [scanString, if_neg hquote, if_pos rfl, hescape]
    · rw [if_neg hcontrol, List.singleton_append, scanString, if_neg hcquote, if_neg hcslash, if_neg hcontrol]

theorem scanString_quote {fuel : Nat} {text : List Code} (hfuel : text.length < fuel) (rest : List Code) :
    scanString fuel (text.flatMap escapeCode ++ code '"' :: rest) = some (text, rest) := by
  induction text generalizing fuel with
  | nil =>
    obtain ⟨fuel, rfl⟩ := Nat.exists_eq_succ_of_ne_zero (Nat.ne_of_gt hfuel)
    rw [List.flatMap_nil, List.nil_append, scanString, if_pos rfl]
  | cons c text ih =>
    rw [List.length_cons] at hfuel
    obtain ⟨fuel, rfl⟩ := Nat.exists_eq_succ_of_ne_zero (Nat.ne_of_gt (Nat.zero_lt_of_lt hfuel))
    rw [List.flatMap_cons, List.append_assoc, scanString_escapeCode, ih (by omega)]
    rfl

theorem escapeCode_ne_nil (c : Code) : escapeCode c ≠ [] := by
  unfold escapeCode
  split
  · exact List.cons_ne_nil _ _
  · split <;> exact List.cons_ne_nil _ _

theorem length_flatMap_escapeCode (text : List Code) : text.length ≤ (text.flatMap escapeCode).length := by
  induction text with
  | nil => exact Nat.le_refl 0
  | cons c text ih =>
    have hpos := List.length_pos_iff.2 (escapeCode_ne_nil c)
    rw [List.flatMap_cons, List.length_append, List.length_cons]
    omega

/-- The rest of a quoted text is read with the fuel that its length gives. -/
theorem scanString_length (text rest : List Code) :
    scanString (text.flatMap escapeCode ++ code '"' :: rest).length (text.flatMap escapeCode ++ code '"' :: rest) =
      some (text, rest) := by
  have hlength := length_flatMap_escapeCode text
  refine scanString_quote ?_ rest
  rw [List.length_append, List.length_cons]
  omega

/-! ## Numbers read back -/

theorem toNat_code (c : Char) : (code c).val = c.toNat := by
  have hlt : c.toNat < 0x110000 := by
    have hv : c.toNat < 0xD800 ∨ 0xDFFF < c.toNat ∧ c.toNat < 0x110000 := c.valid
    omega
  exact Nat.mod_eq_of_lt hlt

theorem digitsValue_map (digits : List Char) : digitsValue (digits.map code) = Nat.ofDigitChars 10 digits 0 := by
  unfold digitsValue Nat.ofDigitChars
  rw [List.foldl_map]
  simp only [toNat_code]
  rfl

theorem isDigit_code {c : Char} : isDigit (code c) = c.isDigit := by
  unfold isDigit Char.isDigit
  rw [toNat_code]
  rfl

/-- What comes behind a number: nothing that could be part of it. -/
def EndsNumber (rest : List Code) : Prop :=
  ∀ c ∈ rest.head?, isDigit c = false ∧ c ≠ code '.' ∧ c ≠ code 'e' ∧ c ≠ code 'E'

theorem fraction_none {rest : List Code} (h : EndsNumber rest) : fraction rest = ([], rest) := by
  unfold fraction
  rcases rest with _ | ⟨c, _ | ⟨d, rest⟩⟩
  · rfl
  · rfl
  · exact if_neg fun hpoint => (h c rfl).2.1 hpoint.1

theorem exponent_none {rest : List Code} (h : EndsNumber rest) : exponent rest = ([], rest) := by
  unfold exponent
  cases rest with
  | nil => rfl
  | cons c rest =>
    refine if_neg ?_
    rintro (he | he)
    · exact (h c rfl).2.2.1 he
    · exact (h c rfl).2.2.2 he

/-- Digits do not begin with a zero, unless they are a zero. -/
theorem toDigits_head {n : Nat} {digits : List Char} (h : Nat.toDigits 10 n = '0' :: digits) : digits = [] := by
  by_contra hne
  have hpos := List.length_pos_iff.2 hne
  have hvalue : Nat.ofDigitChars 10 digits 0 = n := by
    have hall := Nat.ofDigitChars_ten_toDigits (n := n)
    rw [h, ofDigitChars_cons_zero] at hall
    simpa using hall
  have hdigits : ∀ c ∈ digits, c.isDigit = true := fun c hc =>
    Nat.isDigit_of_mem_toDigits (by decide) (by decide) (h ▸ List.mem_cons_of_mem _ hc)
  have hlt := ofDigitChars_lt hdigits
  rw [hvalue] at hlt
  have hlength := (Nat.length_toDigits_le_iff (by decide) hpos).2 hlt
  rw [h, List.length_cons] at hlength
  omega

theorem takeWhile_digits {digits rest : List Code} (hdigits : ∀ c ∈ digits, isDigit c = true) (h : EndsNumber rest) :
    (digits ++ rest).takeWhile isDigit = digits ∧ (digits ++ rest).dropWhile isDigit = rest := by
  have hrest : rest.takeWhile isDigit = [] ∧ rest.dropWhile isDigit = rest := by
    cases rest with
    | nil => exact ⟨rfl, rfl⟩
    | cons c rest =>
      have hc : ¬ isDigit c = true := by
        rw [(h c rfl).1]
        exact Bool.false_ne_true
      exact ⟨List.takeWhile_cons_of_neg hc, List.dropWhile_cons_of_neg hc⟩
  rw [List.takeWhile_append_of_pos hdigits, List.dropWhile_append_of_pos hdigits, hrest.1, hrest.2, List.append_nil]
  exact ⟨rfl, rfl⟩

theorem scanNumber_toDigits {n : Nat} (hn : n < 10 ^ maxDigits) {rest : List Code} (h : EndsNumber rest) :
    scanNumber ((Nat.toDigits 10 n).map code ++ rest) = some (.int n, rest) := by
  have hdigit : ∀ c ∈ Nat.toDigits 10 n, c.isDigit = true := fun c hc =>
    Nat.isDigit_of_mem_toDigits (by decide) (by decide) hc
  have hlength : (Nat.toDigits 10 n).length ≤ maxDigits := (Nat.length_toDigits_le_iff (by decide) (by decide)).2 hn
  have hvalue : digitsValue ((Nat.toDigits 10 n).map code) = n := by rw [digitsValue_map, Nat.ofDigitChars_ten_toDigits]
  cases hdigits : Nat.toDigits 10 n with
  | nil => exact absurd hdigits Nat.toDigits_ne_nil
  | cons c digits =>
    rw [hdigits] at hdigit hlength hvalue
    rw [List.map_cons] at hvalue
    have hc : isDigit (code c) = true := by rw [isDigit_code, hdigit c List.mem_cons_self]
    have hmore : ∀ d ∈ digits.map code, isDigit d = true := by
      intro d hd
      obtain ⟨x, hx, rfl⟩ := List.mem_map.1 hd
      rw [isDigit_code, hdigit x (List.mem_cons_of_mem _ hx)]
    have hsign : ¬ (code c :: (digits.map code ++ rest)).head? = some (code '-') := by
      intro hhead
      rw [Option.some.inj hhead] at hc
      exact absurd hc (by decide)
    -- a leading zero stands alone
    have htake : (if code c = code '0' then [code c] else code c :: (digits.map code ++ rest).takeWhile isDigit) =
          code c :: digits.map code ∧
        (if code c = code '0' then digits.map code ++ rest else (digits.map code ++ rest).dropWhile isDigit) = rest := by
      obtain ⟨htake, hdrop⟩ := takeWhile_digits hmore h
      by_cases hzero : code c = code '0'
      · have hchar : c = '0' := by
          have hval := congrArg Fin.val hzero
          rw [toNat_code, toNat_code] at hval
          exact Char.toNat_inj.1 hval
        have hnil : digits = [] := toDigits_head (hchar ▸ hdigits)
        rw [if_pos hzero, if_pos hzero, hnil]
        exact ⟨rfl, rfl⟩
      · rw [if_neg hzero, if_neg hzero, htake, hdrop]
        exact ⟨rfl, rfl⟩
    rw [List.map_cons, List.cons_append, scanNumber, if_neg hsign, scanUnsigned, if_pos hc]
    dsimp only
    rw [htake.1, htake.2, fraction_none h]
    dsimp only
    rw [exponent_none h]
    dsimp only
    rw [if_neg (by simp), hvalue, ← List.map_cons, List.length_map, if_neg (Nat.not_lt.2 hlength)]
    rfl

/-! ## Objects read back -/

/-- No word begins with a digit. -/
theorem scanWord_digit {c : Code} (hc : isDigit c = true) (rest : List Code) : scanWord (c :: rest) = none := by
  have hwords : ∀ word ∈ words, word.1.head?.any (fun d => !isDigit d) = true := by decide
  have hnone : (words.find? fun word => word.1.isPrefixOf (c :: rest)) = none := by
    rw [List.find?_eq_none]
    intro word hword hprefix
    have hhead := hwords word hword
    rcases hletters : word.1 with _ | ⟨d, letters⟩
    · rw [hletters] at hhead
      cases hhead
    · rw [hletters, List.isPrefixOf_cons_cons, Bool.and_eq_true, beq_iff_eq] at hprefix
      rw [hletters, hprefix.1] at hhead
      simp [hc] at hhead
  rw [scanWord, hnone]
  rfl

namespace Scalar

/-- A number that is not too long to be read. -/
def Readable : Scalar → Prop
  | .nat n => n < 10 ^ maxDigits
  | .null | .str _ => True

theorem scanValue_dumps {x : Scalar} (hx : x.Readable) (fuel : Nat) {rest : List Code} (h : EndsNumber rest) :
    scanValue (fuel + 1) (x.dumps ++ rest) = some (x.toValue, rest) := by
  cases x with
  | null =>
    have hword : scanWord (codes "null" ++ rest) = some (.null, rest) := by
      have hprefix : (codes "null").isPrefixOf (codes "null" ++ rest) = true :=
        List.isPrefixOf_iff_prefix.2 (List.prefix_append _ _)
      have hfind : words.find? (fun word => word.1.isPrefixOf (codes "null" ++ rest)) = some (codes "null", .null) := by
        rw [words, List.find?_cons, hprefix]
      rw [scanWord, hfind, Option.map_some, List.drop_left]
    have hhead : codes "null" ++ rest = code 'n' :: (codes "ull" ++ rest) := rfl
    rw [dumps, hhead, scanValue, if_neg (by decide), if_neg (by decide), if_neg (by decide), ← hhead, hword]
    rfl
  | str text =>
    have hquote : (Scalar.str text).dumps ++ rest = code '"' :: (text.flatMap escapeCode ++ code '"' :: rest) := by
      rw [dumps, quote, List.cons_append, List.append_assoc, List.singleton_append]
    rw [hquote, scanValue, if_pos rfl, scanString_length]
    rfl
  | nat n =>
    have hnumber := scanNumber_toDigits hx h
    obtain ⟨c, digits, hdigits⟩ := List.exists_cons_of_ne_nil (Nat.toDigits_ne_nil (n := n) (b := 10))
    have hc : isDigit (code c) = true := by
      rw [isDigit_code]
      exact Nat.isDigit_of_mem_toDigits (by decide) (by decide) (hdigits ▸ List.mem_cons_self)
    have hother : ∀ d, isDigit d = false → code c ≠ d := by
      rintro d hd rfl
      rw [hc] at hd
      cases hd
    rw [hdigits, List.map_cons, List.cons_append] at hnumber
    rw [dumps, hdigits, List.map_cons, List.cons_append, scanValue, if_neg (hother _ (by decide)),
      if_neg (hother _ (by decide)), if_neg (hother _ (by decide)), scanWord_digit hc, Option.none_or, hnumber]
    rfl

/-- Values do not begin with a blank. -/
theorem skip_dumps (x : Scalar) (rest : List Code) : skip (x.dumps ++ rest) = x.dumps ++ rest := by
  have hcons : ∀ {c : Code} {more : List Code}, isBlank c = false → skip (c :: more) = c :: more := by
    intro c more hc
    exact List.dropWhile_cons_of_neg (by rw [hc]; exact Bool.false_ne_true)
  cases x with
  | null => exact hcons (by decide)
  | str text => exact hcons (by decide)
  | nat n =>
    obtain ⟨c, digits, hdigits⟩ := List.exists_cons_of_ne_nil (Nat.toDigits_ne_nil (n := n) (b := 10))
    have hc : c.isDigit = true := Nat.isDigit_of_mem_toDigits (by decide) (by decide) (hdigits ▸ List.mem_cons_self)
    have hblank : isBlank (code c) = false := by
      rw [← isDigit_code] at hc
      by_contra hblank
      rw [Bool.not_eq_false] at hblank
      simp only [isBlank, Bool.or_eq_true, decide_eq_true_eq] at hblank
      rcases hblank with ((h | h) | h) | h <;> rw [h] at hc <;> exact absurd hc (by decide)
    rw [dumps, hdigits, List.map_cons, List.cons_append]
    exact hcons hblank

end Scalar

/-- One member of an object, up to what separates it from the next one or closes the object. -/
theorem scanMembers_step {member : List Code × Scalar} (hm : member.2.Readable) (fuel : Nat)
    (members : List (List Code × Value)) {d : Code} (hd : d = code ',' ∨ d = code '}') (rest : List Code) :
    scanMembers (fuel + 2) members (dumpMember member ++ d :: rest) =
      if d = code '}' then some (.obj (setMember members member.1 member.2.toValue), rest)
      else scanMembers (fuel + 1) (setMember members member.1 member.2.toValue) (skip rest) := by
  have hends : EndsNumber (d :: rest) := by
    intro c hc
    rw [List.head?_cons, Option.mem_some_iff] at hc
    subst hc
    rcases hd with rfl | rfl <;> decide
  have hskip : skip (d :: rest) = d :: rest := by
    rcases hd with rfl | rfl <;> rfl
  have htext : dumpMember member ++ d :: rest = code '"' :: (member.1.flatMap escapeCode ++ code '"' ::
      (code ':' :: code ' ' :: (member.2.dumps ++ d :: rest))) := by
    have hcolon : codes ": " = [code ':', code ' '] := rfl
    rw [dumpMember, quote, hcolon]
    simp
  have hcolon : skip (code ':' :: code ' ' :: (member.2.dumps ++ d :: rest)) =
      code ':' :: code ' ' :: (member.2.dumps ++ d :: rest) := rfl
  have hspace : skip (code ' ' :: (member.2.dumps ++ d :: rest)) = skip (member.2.dumps ++ d :: rest) := rfl
  have hnot : ¬ code '"' ≠ code '"' := fun h => h rfl
  rw [htext, scanMembers, if_neg hnot, scanString_length]
  dsimp only
  rw [hcolon, List.head?_cons, if_neg (fun h => h rfl), List.tail_cons, hspace, Scalar.skip_dumps,
    Scalar.scanValue_dumps hm fuel hends]
  dsimp only
  rw [hskip]
  dsimp only
  rcases hd with rfl | rfl
  · rw [if_neg (by decide), if_pos rfl, if_neg (by decide)]
  · rw [if_pos rfl, if_pos rfl]

theorem scanMembers_dumpMembers {items : List (List Code × Scalar)} (hne : items ≠ []) (hitems : ∀ m ∈ items, m.2.Readable)
    {fuel : Nat} (hfuel : items.length < fuel) (members : List (List Code × Value)) (rest : List Code) :
    scanMembers fuel members (dumpMembers items ++ code '}' :: rest) =
      some (.obj (items.foldl (fun ms m => setMember ms m.1 m.2.toValue) members), rest) := by
  induction items generalizing fuel members with
  | nil => exact absurd rfl hne
  | cons item items ih =>
    obtain ⟨hitem, hitems⟩ := List.forall_mem_cons.1 hitems
    rw [List.length_cons] at hfuel
    obtain ⟨fuel, rfl⟩ : ∃ k, fuel = k + 2 := ⟨fuel - 2, by omega⟩
    rcases items with _ | ⟨next, items⟩
    · rw [dumpMembers, scanMembers_step hitem fuel members (.inr rfl), if_pos rfl]
      rfl
    · have hcomma : codes ", " = [code ',', code ' '] := rfl
      have htext : dumpMembers (item :: next :: items) ++ code '}' :: rest =
          dumpMember item ++ code ',' :: (code ' ' :: (dumpMembers (next :: items) ++ code '}' :: rest)) := by
        rw [dumpMembers, hcomma]
        simp
      have hskip : skip (code ' ' :: (dumpMembers (next :: items) ++ code '}' :: rest)) =
          dumpMembers (next :: items) ++ code '}' :: rest := by
        cases items <;> rfl
      rw [htext, scanMembers_step hitem fuel members (.inl rfl), if_neg (by decide), hskip,
        ih (List.cons_ne_nil _ _) hitems (by rw [List.length_cons] at hfuel ⊢; omega)]
      rfl

/-- New members go to the end. -/
theorem foldl_setMember {items : List (List Code × Scalar)} {members : List (List Code × Value)}
    (h : (members.map Prod.fst ++ items.map Prod.fst).Nodup) :
    items.foldl (fun ms m => setMember ms m.1 m.2.toValue) members = members ++ items.map fun m => (m.1, m.2.toValue) := by
  induction items generalizing members with
  | nil => simp
  | cons item items ih =>
    have hnew : ¬ members.any (·.1 = item.1) = true := by
      rw [List.any_eq_true]
      rintro ⟨m, hm, heq⟩
      rw [List.nodup_append] at h
      exact h.2.2 m.1 (List.mem_map_of_mem hm) item.1 (by simp) (of_decide_eq_true heq)
    rw [List.foldl_cons, setMember, if_neg hnew, ih (by simpa using h)]
    simp

theorem length_dumpMembers (items : List (List Code × Scalar)) : items.length ≤ (dumpMembers items).length := by
  induction items with
  | nil => exact Nat.le_refl 0
  | cons item items ih =>
    have hpos : 1 ≤ (dumpMember item).length := by
      rw [dumpMember, quote]
      simp
    cases items with
    | nil => exact hpos
    | cons next items =>
      rw [dumpMembers, List.length_append, List.length_append, List.length_cons]
      omega

/-- The decoder gives back the members. -/
theorem loads_dumps {items : List (List Code × Scalar)} (hne : items ≠ []) (hitems : ∀ m ∈ items, m.2.Readable)
    (hkeys : (items.map Prod.fst).Nodup) : loads (dumps items) = some (.obj (items.map fun m => (m.1, m.2.toValue))) := by
  have hlength := length_dumpMembers items
  have hskip : skip (dumps items) = dumps items := rfl
  have hinner : skip (dumpMembers items ++ [code '}']) = dumpMembers items ++ [code '}'] ∧
      (dumpMembers items ++ [code '}']).head? ≠ some (code '}') := by
    rcases items with _ | ⟨item, _ | ⟨next, items⟩⟩
    · exact absurd rfl hne
    · exact ⟨rfl, fun h => absurd (show some (code '"') = some (code '}') from h) (by decide)⟩
    · exact ⟨rfl, fun h => absurd (show some (code '"') = some (code '}') from h) (by decide)⟩
  have hfuel : items.length < (dumps items).length := by
    rw [dumps, List.length_cons, List.length_append]
    omega
  rw [loads, hskip]
  unfold dumps at hfuel ⊢
  rw [scanValue, if_neg (by decide), if_pos rfl, hinner.1, if_neg hinner.2,
    scanMembers_dumpMembers hne hitems hfuel, foldl_setMember (by simpa using hkeys)]
  rfl

/-! ## The characters of a text -/

/-- A character that is written: no control character, and from the text or ASCII. -/
def Written (text : List Code) (c : Code) : Prop := 32 ≤ c.val ∧ (c.val < 128 ∨ c ∈ text)

theorem Written.mono {text more : List Code} (h : ∀ c ∈ text, c ∈ more) {c : Code} (hc : Written text c) : Written more c :=
  ⟨hc.1, hc.2.imp_right (h c)⟩

theorem written_codes {s : String} (h : (codes s).all (fun c => 32 ≤ c.val && c.val < 128) = true) (text : List Code) :
    ∀ c ∈ codes s, Written text c := by
  intro c hc
  have hrange := List.all_eq_true.1 h c hc
  rw [Bool.and_eq_true, decide_eq_true_eq, decide_eq_true_eq] at hrange
  exact ⟨hrange.1, .inl hrange.2⟩

theorem shortEscapes_printable : ∀ e ∈ shortEscapes, 32 ≤ e.1.val ∧ e.1.val < 128 := by
  have hall : shortEscapes.all (fun e => 32 ≤ e.1.val && e.1.val < 128) = true := by decide
  intro e he
  have hprintable := List.all_eq_true.1 hall e he
  rw [Bool.and_eq_true, decide_eq_true_eq, decide_eq_true_eq] at hprintable
  exact hprintable

theorem written_escapeCode {c d : Code} (h : d ∈ escapeCode c) : Written [c] d := by
  have hhex : ∀ n < 16, 32 ≤ (hexDigit n).val ∧ (hexDigit n).val < 128 := by
    intro n hn
    have hval : (hexDigit n).val = (if n < 10 then 48 + n else 87 + n) % 0x110000 := rfl
    rw [hval]
    split <;> omega
  have hslash : 32 ≤ (code '\\').val ∧ (code '\\').val < 128 := by decide
  have hascii : ∀ x : Code, 32 ≤ x.val ∧ x.val < 128 → Written [c] x := fun x hx => ⟨hx.1, .inl hx.2⟩
  unfold escapeCode at h
  split at h
  · next e hfind =>
    rcases List.mem_cons.1 h with rfl | h
    · exact hascii _ hslash
    · rw [List.mem_singleton.1 h]
      exact hascii _ (shortEscapes_printable _ (List.mem_of_find?_eq_some hfind))
  · split at h
    · have happend : d ∈ codes "\\u00" ++ [hexDigit (c.val / 16), hexDigit (c.val % 16)] := h
      rcases List.mem_append.1 happend with h | h
      · exact written_codes (by decide) _ d h
      · rcases List.mem_pair.1 h with rfl | rfl
        · exact hascii _ (hhex _ (by omega))
        · exact hascii _ (hhex _ (by omega))
    · next hcontrol =>
      rw [List.mem_singleton.1 h]
      exact ⟨Nat.not_lt.1 hcontrol, .inr (List.mem_singleton_self c)⟩

theorem written_quote {text : List Code} {c : Code} (h : c ∈ quote text) : Written text c := by
  have hquote : Written text (code '"') := ⟨by decide, .inl (by decide)⟩
  rcases List.mem_cons.1 h with rfl | h
  · exact hquote
  · rcases List.mem_append.1 h with h | h
    · obtain ⟨d, hd, hc⟩ := List.mem_flatMap.1 h
      refine (written_escapeCode hc).mono fun x hx => ?_
      rwa [List.mem_singleton.1 hx]
    · rwa [List.mem_singleton.1 h]

/-- The text in a value. -/
def Scalar.text : Scalar → List Code
  | .str text => text
  | .null | .nat _ => []

theorem Scalar.written_dumps {x : Scalar} {c : Code} (h : c ∈ x.dumps) : Written x.text c := by
  cases x with
  | null => exact written_codes (by decide) _ c h
  | str text => exact written_quote h
  | nat n =>
    obtain ⟨d, hd, rfl⟩ := List.mem_map.1 h
    have hdigit := digit_bounds (Nat.isDigit_of_mem_toDigits (by decide) (by decide) hd)
    refine ⟨?_, .inl ?_⟩ <;> rw [toNat_code] <;> omega

/-- All texts of an object. -/
def texts (items : List (List Code × Scalar)) : List Code := items.flatMap fun m => m.1 ++ m.2.text

theorem written_dumpMember {item : List Code × Scalar} {c : Code} (h : c ∈ dumpMember item) :
    Written (item.1 ++ item.2.text) c := by
  rcases List.mem_append.1 h with h | h
  · rcases List.mem_append.1 h with h | h
    · exact (written_quote h).mono fun x hx => List.mem_append_left _ hx
    · exact written_codes (by decide) _ c h
  · exact (Scalar.written_dumps h).mono fun x hx => List.mem_append_right _ hx

theorem written_dumpMembers {items : List (List Code × Scalar)} {c : Code} (h : c ∈ dumpMembers items) :
    Written (texts items) c := by
  induction items with
  | nil => exact absurd h List.not_mem_nil
  | cons item items ih =>
    have hitem : c ∈ dumpMember item → Written (texts (item :: items)) c := fun hc =>
      (written_dumpMember hc).mono fun x hx => List.mem_flatMap.2 ⟨item, List.mem_cons_self, hx⟩
    cases items with
    | nil => exact hitem h
    | cons next items =>
      rcases List.mem_append.1 h with h | h
      · rcases List.mem_append.1 h with h | h
        · exact hitem h
        · exact written_codes (by decide) _ c h
      · refine (ih h).mono fun x hx => ?_
        rw [texts, List.flatMap_cons]
        exact List.mem_append_right _ hx

/-- What an object is written with. -/
theorem written_dumps {items : List (List Code × Scalar)} {c : Code} (h : c ∈ dumps items) : Written (texts items) c := by
  rcases List.mem_cons.1 h with rfl | h
  · exact ⟨by decide, .inl (by decide)⟩
  · rcases List.mem_append.1 h with h | h
    · exact written_dumpMembers h
    · rw [List.mem_singleton.1 h]
      exact ⟨by decide, .inl (by decide)⟩

end LogAnalytics.Lib.Json
