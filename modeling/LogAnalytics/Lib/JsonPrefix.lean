import Mathlib.Data.List.Nodup
import Mathlib.Data.List.TakeWhile
import LogAnalytics.Lib.Json
/-!
# JSON texts cut short

An object is read up to the brace that closes it, whatever is behind that brace. So what is left of
an object's text when its end is cut off is not JSON.
-/

namespace LogAnalytics.Lib.Json

/-! ## Blanks -/

theorem skip_append {text : List Code} (h : skip text ≠ []) (more : List Code) : skip (text ++ more) = skip text ++ more := by
  have hempty : (text.dropWhile isBlank).isEmpty = false := by
    rw [← Bool.not_eq_true, List.isEmpty_iff]
    exact h
  rw [skip, List.dropWhile_append, hempty, if_neg Bool.false_ne_true]
  rfl

theorem skip_cons_append {text rest : List Code} {c : Code} (h : skip text = c :: rest) (more : List Code) :
    skip (text ++ more) = c :: (rest ++ more) := by
  rw [skip_append (by rw [h]; exact List.cons_ne_nil _ _), h, List.cons_append]

theorem skip_eq_nil_iff {text : List Code} : skip text = [] ↔ ∀ c ∈ text, isBlank c = true := List.dropWhile_eq_nil_iff

/-- What is behind a value that is not the last thing in the text. -/
def Delimited (rest : List Code) : Prop :=
  ∃ c ∈ rest.head?, isBlank c = true ∨ c = code ',' ∨ c = code '}' ∨ c = code ']'

theorem delimited_of_skip {rest more : List Code} {d : Code} (h : skip rest = d :: more)
    (hd : d = code ',' ∨ d = code '}' ∨ d = code ']') : Delimited rest := by
  cases rest with
  | nil => cases h
  | cons c rest =>
    refine ⟨c, rfl, ?_⟩
    cases hc : isBlank c with
    | true => exact .inl rfl
    | false =>
      rw [skip, List.dropWhile_cons_of_neg (Bool.not_eq_true _ ▸ hc)] at h
      rw [(List.cons.inj h).1]
      exact .inr hd

/-- A delimiter is part of no number. -/
theorem Delimited.ends {rest : List Code} (h : Delimited rest) : rest ≠ [] ∧ EndsNumber rest := by
  obtain ⟨c, hc, hdelimiter⟩ := h
  refine ⟨fun hnil => ?_, fun d hd => ?_⟩
  · rw [hnil] at hc
    cases hc
  · rw [Option.mem_unique hd hc]
    rcases hdelimiter with hblank | rfl | rfl | rfl
    · simp only [isBlank, Bool.or_eq_true, decide_eq_true_eq] at hblank
      rcases hblank with ((rfl | rfl) | rfl) | rfl <;> decide
    · decide
    · decide
    · decide

/-! ## Strings -/

theorem hex4_append {text rest : List Code} {n : Nat} (h : hex4 text = some (n, rest)) (more : List Code) :
    hex4 (text ++ more) = some (n, rest ++ more) := by
  rcases text with _ | ⟨a, _ | ⟨b, _ | ⟨c, _ | ⟨d, text⟩⟩⟩⟩
  · cases h
  · cases h
  · cases h
  · cases h
  · simp only [List.cons_append, hex4] at h ⊢
    split at h
    · cases h
      rfl
    · cases h

/-- A low surrogate is found where it was, and nowhere else if the text behind the high one goes on
to the end of a string. -/
theorem lowSurrogate_append {high fuel : Nat} {text : List Code} {x : List Code × List Code}
    (h : scanString fuel text = some x) (more : List Code) :
    lowSurrogate high (text ++ more) = (lowSurrogate high text).map fun low => (low.1, low.2 ++ more) := by
  have hfirst : ∀ (a : Code) (rest : List Code), a ≠ code '\\' → lowSurrogate high (a :: rest) = none := by
    intro a rest ha
    cases rest with
    | nil => rfl
    | cons b rest => exact if_neg fun hescape => ha hescape.2.1
  cases fuel with
  | zero => cases h
  | succ fuel =>
    cases text with
    | nil => cases h
    | cons a text =>
      by_cases ha : a = code '\\'
      · rw [scanString, if_neg (by rw [ha]; decide), if_pos ha] at h
        cases hescape : scanEscape text with
        | none =>
          rw [hescape] at h
          cases h
        | some e =>
          cases text with
          | nil => cases hescape
          | cons b text =>
            simp only [List.cons_append, lowSurrogate]
            split
            · next hsurrogate =>
              rw [scanEscape, if_pos hsurrogate.2.2] at hescape
              cases hhex : hex4 text with
              | none =>
                rw [hhex] at hescape
                cases hescape
              | some low =>
                rw [hex4_append hhex]
                by_cases hlow : 0xDC00 ≤ low.1 ∧ low.1 < 0xE000
                · simp [Option.filter, hlow]
                · simp [Option.filter, hlow]
            · rfl
      · rw [List.cons_append, hfirst a _ ha, hfirst a _ ha]
        rfl

theorem scanEscape_append {fuel : Nat} {text rest : List Code} {c : Code} {x : List Code × List Code}
    (h : scanEscape text = some (c, rest)) (hstring : scanString fuel rest = some x) (more : List Code) :
    scanEscape (text ++ more) = some (c, rest ++ more) := by
  cases text with
  | nil => cases h
  | cons letter text =>
    rw [List.cons_append]
    rw [scanEscape] at h ⊢
    split at h
    · next hu =>
      rw [if_pos hu]
      cases hhex : hex4 text with
      | none =>
        rw [hhex] at h
        cases h
      | some high =>
        obtain ⟨u, behind⟩ := high
        rw [hhex] at h
        rw [hex4_append hhex]
        dsimp only at h ⊢
        cases hlow : lowSurrogate u behind with
        | none =>
          rw [hlow] at h
          cases h
          rw [lowSurrogate_append hstring, hlow]
          rfl
        | some low =>
          rw [hlow] at h
          obtain ⟨rfl, rfl⟩ := Prod.mk.inj (Option.some.inj h)
          have hescape : lowSurrogate u (behind ++ more) = some (low.1, low.2 ++ more) := by
            rcases behind with _ | ⟨a, _ | ⟨b, behind⟩⟩
            · cases hlow
            · cases hlow
            · simp only [List.cons_append, lowSurrogate] at hlow ⊢
              split at hlow
              · next hsurrogate =>
                rw [if_pos hsurrogate]
                obtain ⟨hhex, hrange⟩ := Option.filter_eq_some_iff.1 hlow
                rw [hex4_append hhex]
                exact Option.filter_eq_some_iff.2 ⟨rfl, hrange⟩
              · cases hlow
          rw [hescape]
    · next hu =>
      rw [if_neg hu]
      split at h
      · next hslash =>
        cases h
        rw [if_pos hslash]
      · next hslash =>
        obtain ⟨e, he, heq⟩ := Option.map_eq_some_iff.1 h
        cases heq
        rw [if_neg hslash, he]
        rfl

theorem scanString_append {fuel more : Nat} {text rest string : List Code} (h : scanString fuel text = some (string, rest))
    (hfuel : fuel ≤ more) (behind : List Code) : scanString more (text ++ behind) = some (string, rest ++ behind) := by
  induction fuel generalizing more text string with
  | zero => cases h
  | succ fuel ih =>
    obtain ⟨more, rfl⟩ := Nat.exists_eq_succ_of_ne_zero (Nat.ne_of_gt (Nat.lt_of_lt_of_le fuel.succ_pos hfuel))
    have hfuel := Nat.le_of_succ_le_succ hfuel
    cases text with
    | nil => cases h
    | cons c text =>
      rw [List.cons_append]
      rw [scanString] at h ⊢
      split at h
      · next hquote =>
        cases h
        rw [if_pos hquote]
      · next hquote =>
        rw [if_neg hquote]
        split at h
        · next hslash =>
          rw [if_pos hslash]
          cases hescape : scanEscape text with
          | none =>
            rw [hescape] at h
            cases h
          | some e =>
            rw [hescape] at h
            obtain ⟨x, hx, heq⟩ := Option.map_eq_some_iff.1 h
            cases heq
            rw [scanEscape_append hescape hx]
            dsimp only
            rw [ih hx hfuel]
            rfl
        · next hslash =>
          rw [if_neg hslash]
          split at h
          · cases h
          · next hcontrol =>
            obtain ⟨x, hx, heq⟩ := Option.map_eq_some_iff.1 h
            cases heq
            rw [if_neg hcontrol, ih hx hfuel]
            rfl

/-! ## Numbers -/

theorem digits_append {text : List Code} (h : text.dropWhile isDigit ≠ []) (more : List Code) :
    (text ++ more).takeWhile isDigit = text.takeWhile isDigit ∧
      (text ++ more).dropWhile isDigit = text.dropWhile isDigit ++ more := by
  have hlength : (text.takeWhile isDigit).length ≠ text.length := by
    intro hlength
    have hall := congrArg List.length (List.takeWhile_append_dropWhile (p := isDigit) (l := text))
    rw [List.length_append, hlength] at hall
    exact h (List.eq_nil_of_length_eq_zero (by omega))
  have hempty : (text.dropWhile isDigit).isEmpty = false := by
    rw [← Bool.not_eq_true, List.isEmpty_iff]
    exact h
  rw [List.takeWhile_append, if_neg hlength, List.dropWhile_append, hempty, if_neg Bool.false_ne_true]
  exact ⟨rfl, rfl⟩

theorem fraction_append {text : List Code} (hne : (fraction text).2 ≠ []) (hpoint : (fraction text).2.head? ≠ some (code '.'))
    (more : List Code) : fraction (text ++ more) = ((fraction text).1, (fraction text).2 ++ more) := by
  have hfirst : ∀ (c : Code) (rest : List Code), c ≠ code '.' → fraction (c :: rest) = ([], c :: rest) := by
    intro c rest hc
    cases rest with
    | nil => rfl
    | cons d rest => exact if_neg fun h => hc h.1
  rcases text with _ | ⟨c, _ | ⟨d, text⟩⟩
  · exact absurd rfl hne
  · have hc : c ≠ code '.' := fun h => hpoint (congrArg some h)
    exact hfirst c _ hc
  · by_cases hdigits : c = code '.' ∧ isDigit d
    · have hread : ∀ rest, fraction (c :: d :: rest) = (c :: d :: rest.takeWhile isDigit, rest.dropWhile isDigit) :=
        fun rest => if_pos hdigits
      rw [hread] at hne
      obtain ⟨htake, hdrop⟩ := digits_append hne more
      rw [List.cons_append, List.cons_append, hread, hread, htake, hdrop]
    · have hread : fraction (c :: d :: text) = ([], c :: d :: text) := if_neg hdigits
      rw [hread]
      exact if_neg hdigits

/-- The sign of an exponent. -/
def sign (text : List Code) : List Code :=
  text.take (if text.head? = some (code '+') ∨ text.head? = some (code '-') then 1 else 0)

theorem sign_append {text : List Code} (h : text ≠ []) (more : List Code) :
    sign (text ++ more) = sign text ∧ (sign text).length ≤ text.length := by
  have hpos := List.length_pos_iff.2 h
  unfold sign
  rw [List.head?_append_of_ne_nil _ h, List.take_append_of_le_length (by split <;> omega)]
  exact ⟨rfl, by rw [List.length_take]; omega⟩

theorem exponent_append {text : List Code} (h : Delimited (exponent text).2) (more : List Code) :
    exponent (text ++ more) = ((exponent text).1, (exponent text).2 ++ more) := by
  cases text with
  | nil => exact absurd rfl h.ends.1
  | cons e text =>
    rw [List.cons_append]
    by_cases he : e = code 'e' ∨ e = code 'E'
    · have hread : ∀ rest, exponent (e :: rest) =
          if (rest.drop (sign rest).length).takeWhile isDigit = [] then ([], e :: rest)
          else (e :: (sign rest ++ (rest.drop (sign rest).length).takeWhile isDigit),
            (rest.drop (sign rest).length).dropWhile isDigit) := fun rest => if_pos he
      by_cases hdigits : (text.drop (sign text).length).takeWhile isDigit = []
      · -- the letter would be the delimiter
        rw [hread, if_pos hdigits] at h
        have hletter := h.ends.2 e rfl
        rcases he with rfl | rfl
        · exact absurd rfl hletter.2.2.1
        · exact absurd rfl hletter.2.2.2
      · have hne : text ≠ [] := by
          rintro rfl
          exact hdigits (by rw [List.drop_nil, List.takeWhile_nil])
        rw [hread, if_neg hdigits] at h
        obtain ⟨hsign, hlength⟩ := sign_append hne more
        obtain ⟨htake, hdrop⟩ := digits_append h.ends.1 more
        rw [hread, hread, hsign, List.drop_append_of_le_length hlength, htake, hdrop, if_neg hdigits, if_neg hdigits]
    · have hread : ∀ rest, exponent (e :: rest) = ([], e :: rest) := fun rest => if_neg he
      rw [hread, hread]
      rfl

/-- A number from its parts, with what is behind it. -/
def number (negative : Bool) (digits frac exp rest : List Code) : Option (Value × List Code) :=
  if frac ≠ [] ∨ exp ≠ [] then some (.float ((if negative then [code '-'] else []) ++ digits ++ frac ++ exp), rest)
  else if maxDigits < digits.length then none
  else some (.int (if negative then -digitsValue digits else digitsValue digits), rest)

theorem number_rest {negative : Bool} {digits frac exp behind rest : List Code} {value : Value}
    (h : number negative digits frac exp behind = some (value, rest)) :
    rest = behind ∧ ∀ more, number negative digits frac exp more = some (value, more) := by
  unfold number at h ⊢
  split at h
  · next hfloat =>
    cases h
    exact ⟨rfl, fun more => if_pos hfloat⟩
  · next hint =>
    split at h
    · cases h
    · next hshort =>
      cases h
      exact ⟨rfl, fun more => by rw [if_neg hint, if_neg hshort]⟩

theorem scanUnsigned_digit {c : Code} (hc : isDigit c = true) (negative : Bool) (text : List Code) :
    scanUnsigned negative (c :: text) =
      let after := if c = code '0' then text else text.dropWhile isDigit
      number negative (if c = code '0' then [c] else c :: text.takeWhile isDigit) (fraction after).1
        (exponent (fraction after).2).1 (exponent (fraction after).2).2 := if_pos hc

theorem scanUnsigned_starts {negative : Bool} {text : List Code} {x : Value × List Code}
    (h : scanUnsigned negative text = some x) : ∃ c rest, text = c :: rest ∧ isDigit c = true := by
  cases text with
  | nil => cases h
  | cons c rest =>
    refine ⟨c, rest, rfl, ?_⟩
    by_contra hc
    exact absurd (h.symm.trans (if_neg hc)) (Option.some_ne_none x)

theorem scanUnsigned_append {negative : Bool} {text rest : List Code} {value : Value}
    (h : scanUnsigned negative text = some (value, rest)) (hrest : Delimited rest) (more : List Code) :
    scanUnsigned negative (text ++ more) = some (value, rest ++ more) := by
  obtain ⟨c, text, rfl, hc⟩ := scanUnsigned_starts h
  rw [scanUnsigned_digit hc] at h
  rw [List.cons_append, scanUnsigned_digit hc]
  dsimp only at h ⊢
  -- nothing of the number is at the end of the text, so its parts are the same
  obtain ⟨rfl, hread⟩ := number_rest h
  have hends := hrest.ends
  have hfrac : (fraction (if c = code '0' then text else text.dropWhile isDigit)).2 ≠ [] := by
    intro hnil
    rw [hnil] at hends
    exact hends.1 rfl
  have hpoint : (fraction (if c = code '0' then text else text.dropWhile isDigit)).2.head? ≠ some (code '.') := by
    intro hpoint
    obtain ⟨behind, hbehind⟩ := List.head?_eq_some_iff.1 hpoint
    rw [hbehind] at hends
    exact (hends.2 _ rfl).2.1 rfl
  have hafter : (if c = code '0' then text else text.dropWhile isDigit) ≠ [] := by
    intro hnil
    rw [hnil] at hfrac
    exact hfrac rfl
  have hdigits : (if c = code '0' then [c] else c :: (text ++ more).takeWhile isDigit) =
        (if c = code '0' then [c] else c :: text.takeWhile isDigit) ∧
      (if c = code '0' then text ++ more else (text ++ more).dropWhile isDigit) =
        (if c = code '0' then text else text.dropWhile isDigit) ++ more := by
    by_cases hzero : c = code '0'
    · rw [if_pos hzero, if_pos hzero, if_pos hzero, if_pos hzero]
      exact ⟨rfl, rfl⟩
    · rw [if_neg hzero] at hafter
      obtain ⟨htake, hdrop⟩ := digits_append hafter more
      rw [if_neg hzero, if_neg hzero, if_neg hzero, if_neg hzero, htake, hdrop]
      exact ⟨rfl, rfl⟩
  rw [hdigits.1, hdigits.2, fraction_append hfrac hpoint, exponent_append hrest]
  exact hread _

theorem scanNumber_append {text rest : List Code} {value : Value} (h : scanNumber text = some (value, rest))
    (hrest : Delimited rest) (more : List Code) : scanNumber (text ++ more) = some (value, rest ++ more) := by
  cases text with
  | nil => cases h
  | cons c text =>
    unfold scanNumber at h ⊢
    rw [List.head?_cons] at h
    rw [List.cons_append, List.head?_cons]
    split at h
    · next hsign =>
      rw [if_pos hsign]
      exact scanUnsigned_append h hrest more
    · next hsign =>
      rw [if_neg hsign]
      exact scanUnsigned_append h hrest more

/-! ## Words -/

theorem words_heads : (words.map (·.1.head?)).Nodup := by decide

/-- No word begins as another does. -/
theorem scanWord_eq_some {text : List Code} {value : Value} {rest : List Code} :
    scanWord text = some (value, rest) ↔ ∃ word ∈ words, word.2 = value ∧ text = word.1 ++ rest := by
  have hnonempty : ∀ word ∈ words, word.1 ≠ [] := by
    have hall : words.all (fun word => word.1 ≠ []) = true := by decide
    simpa using hall
  unfold scanWord
  constructor
  · intro h
    obtain ⟨word, hword, heq⟩ := Option.map_eq_some_iff.1 h
    cases heq
    have hprefix : word.1.isPrefixOf text = true := 
      List.find?_some (p := fun word : List Code × Value => word.1.isPrefixOf text) hword
    obtain ⟨rest, rfl⟩ := List.isPrefixOf_iff_prefix.1 hprefix
    exact ⟨word, List.mem_of_find?_eq_some hword, rfl, by rw [List.drop_left]⟩
  · rintro ⟨word, hword, rfl, rfl⟩
    cases hfind : words.find? fun word' => word'.1.isPrefixOf (word.1 ++ rest) with
    | none => exact absurd (List.isPrefixOf_iff_prefix.2 (List.prefix_append word.1 rest)) (List.find?_eq_none.1 hfind word hword)
    | some word' =>
      have hprefix : word'.1.isPrefixOf (word.1 ++ rest) = true := 
        List.find?_some (p := fun word : List Code × Value => word.1.isPrefixOf _) hfind
      obtain ⟨rest', hrest'⟩ := List.isPrefixOf_iff_prefix.1 hprefix
      have hmem := List.mem_of_find?_eq_some hfind
      have hheads : word'.1.head? = word.1.head? := by
        have hhead := congrArg List.head? hrest'
        rwa [List.head?_append_of_ne_nil _ (hnonempty word' hmem), List.head?_append_of_ne_nil _ (hnonempty word hword)] at hhead
      obtain rfl := List.inj_on_of_nodup_map words_heads hmem hword hheads
      rw [Option.map_some, List.drop_left]

/-- A text with a number in front has no word there, whatever is behind it. -/
theorem scanWord_number {text : List Code} {x : Value × List Code} (h : scanNumber text = some x) (more : List Code) :
    scanWord (text ++ more) = none := by
  have hwords : ∀ word ∈ words, ∃ a b letters, word.1 = a :: b :: letters ∧ isDigit a = false ∧ isDigit b = false := by
    intro word hword
    have hall : words.all (fun word => !(word.1.take 2).any isDigit && 2 ≤ word.1.length) = true := by decide
    have hword := List.all_eq_true.1 hall word hword
    rcases word with ⟨_ | ⟨a, _ | ⟨b, letters⟩⟩, value⟩
    · simp at hword
    · simp at hword
    · exact ⟨a, b, letters, rfl, by simpa using hword⟩
  cases hread : scanWord (text ++ more) with
  | none => rfl
  | some found =>
    obtain ⟨word, hword, -, htext⟩ := scanWord_eq_some.1 hread
    obtain ⟨a, b, letters, hletters, ha, hb⟩ := hwords word hword
    rw [hletters] at htext
    unfold scanNumber at h
    split at h
    · next hsign =>
      obtain ⟨c, rest, hrest, hc⟩ := scanUnsigned_starts h
      obtain ⟨behind, rfl⟩ := List.head?_eq_some_iff.1 hsign
      rw [List.tail_cons] at hrest
      rw [hrest, List.cons_append, List.cons_append, List.cons_append] at htext
      rw [(List.cons.inj (List.cons.inj htext).2).1, hb] at hc
      cases hc
    · obtain ⟨c, rest, rfl, hc⟩ := scanUnsigned_starts h
      rw [List.cons_append, List.cons_append] at htext
      rw [(List.cons.inj htext).1, ha] at hc
      cases hc

/-- A value without brackets and quotes. -/
theorem scanPlain_append {text rest : List Code} {value : Value} (h : (scanWord text).or (scanNumber text) = some (value, rest))
    (hrest : Delimited rest) (more : List Code) :
    (scanWord (text ++ more)).or (scanNumber (text ++ more)) = some (value, rest ++ more) := by
  rcases Option.or_eq_some_iff.1 h with hread | ⟨-, hnumber⟩
  · obtain ⟨word, hword, hvalue, rfl⟩ := scanWord_eq_some.1 hread
    rw [scanWord_eq_some.2 ⟨word, hword, hvalue, List.append_assoc _ _ _⟩]
    rfl
  · rw [scanWord_number hnumber more, scanNumber_append hnumber hrest more]
    rfl

/-! ## Values -/

/-- With so much fuel everything is read alike when more is behind it: a value that something is
behind already, and whatever is read up to its closing bracket. -/
structure Stable (fuel : Nat) : Prop where
  value : ∀ {text rest : List Code} {v : Value} {more : Nat} (behind : List Code), fuel ≤ more →
    scanValue fuel text = some (v, rest) → text.head? = some (code '{') ∨ Delimited rest →
      scanValue more (text ++ behind) = some (v, rest ++ behind)
  members : ∀ {members : List (List Code × Value)} {text rest : List Code} {v : Value} {more : Nat} (behind : List Code),
    fuel ≤ more → scanMembers fuel members text = some (v, rest) →
      scanMembers more members (text ++ behind) = some (v, rest ++ behind)
  items : ∀ {items : List Value} {text rest : List Code} {v : Value} {more : Nat} (behind : List Code),
    fuel ≤ more → scanItems fuel items text = some (v, rest) →
      scanItems more items (text ++ behind) = some (v, rest ++ behind)

theorem scanValue_nil (fuel : Nat) : scanValue fuel [] = none := by cases fuel <;> rfl

theorem scanMembers_nil (fuel : Nat) (members : List (List Code × Value)) : scanMembers fuel members [] = none := by
  cases fuel <;> rfl

theorem scanItems_nil (fuel : Nat) (items : List Value) : scanItems fuel items [] = none := by
  cases fuel with
  | zero => rfl
  | succ fuel => rw [scanItems, scanValue_nil]

theorem scanValue_append {fuel more : Nat} (hs : Stable fuel) (hfuel : fuel ≤ more) {text rest : List Code} {v : Value}
    (h : scanValue (fuel + 1) text = some (v, rest)) (hend : text.head? = some (code '{') ∨ Delimited rest)
    (behind : List Code) : scanValue (more + 1) (text ++ behind) = some (v, rest ++ behind) := by
  cases text with
  | nil => cases h
  | cons c text =>
    rw [List.cons_append]
    rw [scanValue] at h ⊢
    split at h
    · next hquote =>
      rw [if_pos hquote]
      obtain ⟨x, hx, heq⟩ := Option.map_eq_some_iff.1 h
      cases heq
      rw [scanString_append hx (by rw [List.length_append]; omega) behind]
      rfl
    · next hquote =>
      rw [if_neg hquote]
      split at h
      · next hbrace =>
        rw [if_pos hbrace]
        split at h
        · next hclosed =>
          cases h
          obtain ⟨after, hafter⟩ := List.head?_eq_some_iff.1 hclosed
          rw [skip_cons_append hafter, hafter]
          exact if_pos rfl
        · next hmore =>
          have hne : skip text ≠ [] := by
            intro hnil
            rw [hnil, scanMembers_nil] at h
            cases h
          rw [skip_append hne, List.head?_append_of_ne_nil _ hne, if_neg hmore]
          exact hs.members behind hfuel h
      · next hbrace =>
        have hrest : Delimited rest := hend.resolve_left fun hopen => hbrace (Option.some.inj hopen)
        rw [if_neg hbrace]
        split at h
        · next hbracket =>
          rw [if_pos hbracket]
          split at h
          · next hclosed =>
            cases h
            obtain ⟨after, hafter⟩ := List.head?_eq_some_iff.1 hclosed
            rw [skip_cons_append hafter, hafter]
            exact if_pos rfl
          · next hmore =>
            have hne : skip text ≠ [] := by
              intro hnil
              rw [hnil, scanItems_nil] at h
              cases h
            rw [skip_append hne, List.head?_append_of_ne_nil _ hne, if_neg hmore]
            exact hs.items behind hfuel h
        · next hbracket =>
          rw [if_neg hbracket]
          exact scanPlain_append h hrest behind

theorem scanMembers_append {fuel more : Nat} (hs : Stable fuel) (hfuel : fuel ≤ more)
    {members : List (List Code × Value)} {text rest : List Code} {v : Value}
    (h : scanMembers (fuel + 1) members text = some (v, rest)) (behind : List Code) :
    scanMembers (more + 1) members (text ++ behind) = some (v, rest ++ behind) := by
  cases text with
  | nil => cases h
  | cons c text =>
    rw [List.cons_append]
    rw [scanMembers] at h ⊢
    split at h
    · cases h
    · next hquote =>
      rw [if_neg hquote]
      cases hkey : scanString text.length text with
      | none =>
        rw [hkey] at h
        cases h
      | some found =>
        obtain ⟨key, afterKey⟩ := found
        rw [hkey] at h
        rw [scanString_append hkey (by rw [List.length_append]; omega) behind]
        dsimp only at h ⊢
        split at h
        · cases h
        · next hcolon =>
          obtain ⟨afterColon, hskipKey⟩ := List.head?_eq_some_iff.1 (not_not.1 hcolon)
          rw [skip_cons_append hskipKey behind, List.head?_cons, if_neg (not_not.2 rfl), List.tail_cons]
          rw [hskipKey, List.tail_cons] at h
          cases hvalue : scanValue fuel (skip afterColon) with
          | none =>
            rw [hvalue] at h
            cases h
          | some found =>
            obtain ⟨value, afterValue⟩ := found
            have hne : skip afterColon ≠ [] := by
              intro hnil
              rw [hnil, scanValue_nil] at hvalue
              cases hvalue
            rw [hvalue] at h
            dsimp only at h
            cases hskipValue : skip afterValue with
            | nil =>
              rw [hskipValue] at h
              cases h
            | cons d after =>
              rw [hskipValue] at h
              dsimp only at h
              have hstable : d = code ',' ∨ d = code '}' ∨ d = code ']' →
                  scanValue more (skip afterColon ++ behind) = some (value, afterValue ++ behind) := fun hd =>
                hs.value behind hfuel hvalue (.inr (delimited_of_skip hskipValue hd))
              rw [skip_append hne behind]
              split at h
              · next hbrace =>
                cases h
                rw [hstable (.inr (.inl hbrace))]
                dsimp only
                rw [skip_cons_append hskipValue behind]
                dsimp only
                rw [if_pos hbrace]
              · next hbrace =>
                split at h
                · next hcomma =>
                  have hafter : skip after ≠ [] := by
                    intro hnil
                    rw [hnil, scanMembers_nil] at h
                    cases h
                  rw [hstable (.inl hcomma)]
                  dsimp only
                  rw [skip_cons_append hskipValue behind]
                  dsimp only
                  rw [if_neg hbrace, if_pos hcomma, skip_append hafter behind]
                  exact hs.members behind hfuel h
                · cases h

theorem scanItems_append {fuel more : Nat} (hs : Stable fuel) (hfuel : fuel ≤ more) {items : List Value}
    {text rest : List Code} {v : Value} (h : scanItems (fuel + 1) items text = some (v, rest)) (behind : List Code) :
    scanItems (more + 1) items (text ++ behind) = some (v, rest ++ behind) := by
  rw [scanItems] at h ⊢
  cases hvalue : scanValue fuel text with
  | none =>
    rw [hvalue] at h
    cases h
  | some found =>
    obtain ⟨value, afterValue⟩ := found
    rw [hvalue] at h
    dsimp only at h
    cases hskipValue : skip afterValue with
    | nil =>
      rw [hskipValue] at h
      cases h
    | cons d after =>
      rw [hskipValue] at h
      dsimp only at h
      have hstable : d = code ',' ∨ d = code '}' ∨ d = code ']' →
          scanValue more (text ++ behind) = some (value, afterValue ++ behind) := fun hd =>
        hs.value behind hfuel hvalue (.inr (delimited_of_skip hskipValue hd))
      split at h
      · next hbracket =>
        cases h
        rw [hstable (.inr (.inr hbracket))]
        dsimp only
        rw [skip_cons_append hskipValue behind]
        dsimp only
        rw [if_pos hbracket]
      · next hbracket =>
        split at h
        · next hcomma =>
          have hafter : skip after ≠ [] := by
            intro hnil
            rw [hnil, scanItems_nil] at h
            cases h
          rw [hstable (.inl hcomma)]
          dsimp only
          rw [skip_cons_append hskipValue behind]
          dsimp only
          rw [if_neg hbracket, if_pos hcomma, skip_append hafter behind]
          exact hs.items behind hfuel h
        · cases h

theorem stable (fuel : Nat) : Stable fuel := by
  induction fuel with
  | zero =>
    refine ⟨fun behind hfuel h hend => ?_, fun behind hfuel h => ?_, fun behind hfuel h => ?_⟩ <;> cases h
  | succ fuel ih =>
    have hsucc : ∀ {more : Nat}, fuel + 1 ≤ more → ∃ k, more = k + 1 ∧ fuel ≤ k := fun {more} hfuel =>
      ⟨more - 1, by omega, by omega⟩
    refine ⟨fun behind hfuel h hend => ?_, fun behind hfuel h => ?_, fun behind hfuel h => ?_⟩
    · obtain ⟨more, rfl, hle⟩ := hsucc hfuel
      exact scanValue_append ih hle h hend behind
    · obtain ⟨more, rfl, hle⟩ := hsucc hfuel
      exact scanMembers_append ih hle h behind
    · obtain ⟨more, rfl, hle⟩ := hsucc hfuel
      exact scanItems_append ih hle h behind

/-! ## Cut texts -/

/-- An object's text without its end is not JSON. -/
theorem loads_cut {text cut : List Code} (hopen : (text ++ cut).head? = some (code '{')) (hcut : ∃ c ∈ cut, isBlank c = false)
    (hread : loads (text ++ cut) ≠ none) : loads text = none := by
  rcases text with _ | ⟨c, text⟩
  · rfl
  · obtain rfl : c = code '{' := Option.some.inj hopen
    have hskip : ∀ rest, skip (code '{' :: rest) = code '{' :: rest := fun _ => rfl
    unfold loads at hread ⊢
    rw [hskip]
    rw [List.cons_append, hskip] at hread
    cases hvalue : scanValue ((code '{' :: text).length + 1) (code '{' :: text) with
    | none => rfl
    | some found =>
      obtain ⟨value, rest⟩ := found
      have hfuel : (code '{' :: text).length + 1 ≤ (code '{' :: (text ++ cut)).length + 1 := by
        rw [List.length_cons, List.length_cons, List.length_append]
        omega
      have hall := (stable _).value cut hfuel hvalue (.inl rfl)
      rw [List.cons_append] at hall
      rw [hall] at hread
      obtain ⟨c, hc, hblank⟩ := hcut
      refine absurd (if_neg fun hnil => ?_) hread
      rw [skip_eq_nil_iff.1 hnil c (List.mem_append_right _ hc)] at hblank
      cases hblank

/-- What is left of an object that was not written to its end is not JSON. -/
theorem loads_dumps_cut {items : List (List Code × Scalar)} (hne : items ≠ []) (hitems : ∀ m ∈ items, m.2.Readable)
    (hkeys : (items.map Prod.fst).Nodup) {n : Nat} (hn : n < (dumps items).length) : loads ((dumps items).take n) = none := by
  have hsplit := List.take_append_drop n (dumps items)
  have hlast : code '}' ∈ (dumps items).drop n := by
    have hbefore : n ≤ (code '{' :: dumpMembers items).length := by
      rw [dumps, List.length_cons, List.length_append, List.length_singleton] at hn
      rw [List.length_cons]
      omega
    rw [dumps, ← List.cons_append, List.drop_append_of_le_length hbefore]
    exact List.mem_append_right _ List.mem_cons_self
  refine @loads_cut _ ((dumps items).drop n) ?_ ⟨code '}', hlast, by decide⟩ ?_
  · rw [hsplit]
    rfl
  · rw [hsplit, loads_dumps hne hitems hkeys]
    exact Option.some_ne_none _

end LogAnalytics.Lib.Json
