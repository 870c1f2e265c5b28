import LogAnalytics.Lib.RegexScan
import LogAnalytics.MaskingTriggers
/-!
# A secret in quotes

What the default rules leave of the value in `"<key>": "<value>"`. Neither a quote nor what is
behind it takes part in a match of `authorization_header`; `sensitive_kv` takes a quote only next
to its separator, so it cannot get past the key before it has matched it.
-/
open LogAnalytics.Lib LogAnalytics.Lib.Regex

namespace LogAnalytics.MaskingRules

def quote : CodePoint := char '"'

/-- `"<key>": "<value>"` in the middle of a text. -/
def withSecret (pre key value post : Text) : Text :=
  pre ++ quote :: (key ++ quote :: (Text.ofString ": " ++ quote :: (value ++ quote :: post)))

/-- What a rule makes of a text that follows a quote. -/
def applyQuoted (u : CharTables) (rule : RuleName) (text : Text) : Text :=
  subAt (isWord u) (pattern u rule) (replacement rule) (some quote) text

theorem isWord_quote (u : CharTables) : isWord u quote = false := by
  simp [isWord, quote, char, CodePoint.ofChar, isAsciiAlnum, isAsciiDigit, isAsciiUpper, isAsciiLower]

theorem replacement_groups (rule : RuleName) (t t' : Cursor CodePoint) (h : t'.groups = t.groups) :
    replacement rule t' = replacement rule t := by
  cases rule <;> simp only [replacement, groupText, h]

/-! ## The key -/

/-- `a`..`z`, `_` or `-` -/
def isNameChar (c : CodePoint) : Bool := isAsciiLower c || among "_-" c

theorem names_chars : ∀ name ∈ sensitiveFieldNames, name.all isNameChar = true ∧ name.length < 20 ∧ name ≠ [] := by
  have hnames : sensitiveFieldNames.all (fun name => name.all isNameChar && decide (name.length < 20) && !name.isEmpty) =
      true := by
    decide
  intro name hname
  have h := List.all_eq_true.1 hnames name hname
  simp only [Bool.and_eq_true, decide_eq_true_eq, Bool.not_eq_true', List.isEmpty_eq_false_iff] at h
  exact ⟨h.1.1, h.1.2, h.2⟩

/-- What neither separates nor ends anything. -/
def isInner (c : CodePoint) : Bool := !Text.isSpace c && !among ":=" c && c ≠ quote && isValueChar c

/-- A character of a key, in either case, is one. -/
theorem key_char {c : CodePoint} (h : isNameChar (lowerChar c) = true) : isInner c = true := by
  by_cases hkelvin : c = kelvinSign
  · subst hkelvin
    decide
  · rw [lowerChar, if_neg hkelvin] at h
    have hascii : (List.range 128).all (fun n =>
        !isNameChar (Text.asciiLower (Fin.ofNat 0x110000 n)) || isInner (Fin.ofNat 0x110000 n)) = true := by
      decide
    have hlt : c.val < 128 := by
      by_contra hge
      have hchars : Text.ofString "_-" = [char '_', char '-'] := rfl
      rw [Text.asciiLower, if_neg (by omega), isNameChar, among, hchars] at h
      simp [isAsciiLower, Fin.ext_iff, char, CodePoint.ofChar] at h
      omega
    have hc := List.all_eq_true.1 hascii c.val (List.mem_range.2 hlt)
    have hval : Fin.ofNat 0x110000 c.val = c := Fin.ext (Nat.mod_eq_of_lt c.isLt)
    simpa [hval, h] using hc

/-- A key is made of such characters. -/
theorem key_inner {key : Text} (hkey : Trig .sensitiveKv key) : ∀ c ∈ key, isInner c = true := fun _ hc =>
  key_char (List.all_eq_true.1 (names_chars _ hkey.2).1 _ (List.mem_map_of_mem hc))

theorem key_length {key : Text} (hkey : Trig .sensitiveKv key) : key.length < 20 := by
  simpa using (names_chars _ hkey.2).2.1

/-- A key begins with a letter. -/
theorem key_boundary (u : CharTables) {key : Text} (hkey : Trig .sensitiveKv key) : key.head?.any (isWord u) = true := by
  have hnames : sensitiveFieldNames.all (fun name => name.head?.any fun d => isAsciiLower d && d ≠ char 'k') = true := by
    decide
  cases key with
  | nil => exact absurd rfl (names_chars _ hkey.2).2.2
  | cons c key =>
    have hname := List.all_eq_true.1 hnames _ hkey.2
    simp only [List.map_cons, List.head?_cons, Option.any_some, Bool.and_eq_true, decide_eq_true_eq] at hname ⊢
    have hkelvin : c ≠ kelvinSign := by
      rintro rfl
      exact hname.2 (by decide)
    rw [lowerChar, if_neg hkelvin, isAsciiLower, Text.asciiLower] at hname
    have hletter : isAsciiAlnum c = true ∧ c.val < 128 := by
      simp only [isAsciiAlnum, isAsciiDigit, isAsciiUpper, isAsciiLower, Bool.or_eq_true, Bool.and_eq_true,
        decide_eq_true_eq]
      have h := hname.1
      rw [Bool.and_eq_true, decide_eq_true_eq, decide_eq_true_eq] at h
      split at h
      · omega
      · omega
    rw [isWord, if_pos hletter.2, hletter.1, Bool.true_or]

theorem key_cons {key : Text} (hkey : Trig .sensitiveKv key) : ∃ c rest, key = c :: rest ∧ isInner c = true := by
  cases key with
  | nil => exact absurd rfl (names_chars _ hkey.2).2.2
  | cons c rest => exact ⟨c, rest, rfl, key_inner hkey c List.mem_cons_self⟩

/-! ## The header rule -/

theorem header_avoids : authorizationHeader.avoids quote = true := by decide

theorem length_le_flatten {us : List Text} (h : ∀ x ∈ us, x ≠ []) : us.length ≤ us.flatten.length := by
  induction us with
  | nil => exact le_rfl
  | cons x us ih =>
    have hx := List.length_pos_iff.2 (h x List.mem_cons_self)
    have hus := ih fun y hy => h y (List.mem_cons_of_mem _ hy)
    rw [List.flatten_cons, List.length_cons, List.length_append]
    omega

/-- The name alone and a token of eight characters are longer than any key. -/
theorem takes_header (u : CharTables) : authorizationHeader.Takes (isWord u) (20 ≤ ·.length) := by
  have hname : (Regex.group 1 (.all [word (Text.ofString "authorization"), .star Text.isSpace, .chars (among ":="),
      .star Text.isSpace])).Takes (isWord u) (13 ≤ ·.length) := by
    refine Takes.group (((takes_word u _).seq (takes_any _)).mono ?_) 1
    rintro _ ⟨w, x, rfl, hw, -⟩
    have hlen : w.length = 13 := hw.length_eq.symm
    rw [List.length_append]
    omega
  have htoken : (Regex.rep false 8 512 (.chars isTokenChar)).Takes (isWord u) (8 ≤ ·.length) := by
    refine ((takes_chars isTokenChar).rep false 8 512).mono ?_
    rintro _ ⟨us, rfl, hus, hall⟩
    refine le_trans hus (length_le_flatten fun x hx => ?_)
    obtain ⟨c, rfl, -⟩ := hall x hx
    exact List.cons_ne_nil c []
  refine (takes_boundary.seq (hname.seq ((takes_any _).seq ((takes_any _).seq htoken)))).mono ?_
  rintro _ ⟨_, _, rfl, -, n, _, rfl, hn, _, _, rfl, -, _, t, rfl, -, ht⟩
  simp only [List.length_append]
  omega

/-- The rule acts between the quotes, and leaves the key as it is. -/
theorem header_withSecret (u : CharTables) {key : Text} (hkey : key.length < 20) (pre value post : Text) :
    apply u .authorizationHeader (withSecret pre key value post) =
      withSecret (apply u .authorizationHeader pre) key (applyQuoted u .authorizationHeader value)
        (applyQuoted u .authorizationHeader post) := by
  have hne : authorizationHeader.Takes (isWord u) (· ≠ []) := (takes_header u).mono fun x hx h => by
    rw [h] at hx
    cases hx
  have hsplit : ∀ prev a b, subAt (isWord u) authorizationHeader (replacement .authorizationHeader) prev (a ++ quote :: b) =
      subAt (isWord u) authorizationHeader (replacement .authorizationHeader) prev a ++
        quote :: applyQuoted u .authorizationHeader b := fun prev a b =>
    subAt_append (isWord_quote u) header_avoids hne (replacement_groups _) prev a b
  have hshort : ∀ {text : Text}, text.length < 20 → applyQuoted u .authorizationHeader text = text := fun h =>
    subAt_short (takes_header u) h
  have hsplit' : ∀ a b, applyQuoted u .authorizationHeader (a ++ quote :: b) =
      applyQuoted u .authorizationHeader a ++ quote :: applyQuoted u .authorizationHeader b := hsplit (some quote)
  change subAt _ _ _ none _ = _
  rw [withSecret, pattern, hsplit, hsplit', hsplit', hsplit', hshort hkey, hshort (by decide)]
  rfl

/-! ## Before the key -/

section

variable {u : CharTables} {key e e' : Text}

/-- Two places past the quote before the key, with the key still to come. -/
structure PastQuote (key e e' : Text) (t t' : Cursor CodePoint) : Prop where
  prev : t'.prev = t.prev
  groups : t'.groups = t.groups
  rest : t.rest = key ++ e
  rest' : t'.rest = key ++ e'

/-- Two places with the same before the quote, the key and the two ends. -/
def BeforeKey (key e e' : Text) : Cursor CodePoint → Cursor CodePoint → Prop :=
  Alike (quote :: (key ++ e)) (quote :: (key ++ e'))

theorem BeforeKey.alike {t t' : Cursor CodePoint} (h : BeforeKey key e e' t t') : Alike e e' t t' := by
  obtain ⟨x, hx, hx'⟩ := h.rest
  exact ⟨h.prev, h.groups, x ++ quote :: key, by simpa using hx, by simpa using hx'⟩

theorem PastQuote.alike {t t' : Cursor CodePoint} (h : PastQuote key e e' t t') : Alike e e' t t' :=
  ⟨h.prev, h.groups, key, h.rest, h.rest'⟩

theorem run_beforeKey {r : Regex CodePoint} (hr : r.avoids quote = true) {s s' : Cursor CodePoint}
    (h : BeforeKey key e e' s s') :
    List.Forall₂ (BeforeKey key e e') (r.run (isWord u) s) (r.run (isWord u) s') :=
  run_alike (isWord_quote u) (stop_cons _) (stop_cons _) hr h

/-- An optional quote may be the one before the key. -/
theorem optQuote_alike {s s' : Cursor CodePoint} (h : BeforeKey key e e' s s') :
    List.Forall₂ (fun t t' => BeforeKey key e e' t t' ∨ PastQuote key e e' t t')
      ((Regex.opt (oneChar '"')).run (isWord u) s) ((Regex.opt (oneChar '"')).run (isWord u) s') := by
  rw [run_opt, run_opt]
  refine List.rel_append ?_ (.cons (.inl h) .nil)
  obtain ⟨x, hx, hx'⟩ := h.rest
  cases x with
  | nil =>
    have hquote : ∀ {s : Cursor CodePoint} {rest : Text}, s.rest = quote :: rest →
        (oneChar '"').run (isWord u) s = [⟨some quote, rest, s.groups⟩] := by
      intro s rest hs
      rw [oneChar, run_chars, hs]
      rfl
    rw [hquote hx, hquote hx']
    exact .cons (.inr ⟨rfl, h.groups, rfl, rfl⟩) .nil
  | cons c x => exact (chars_alike h hx).imp fun _ _ => .inl

/-- No separator stands at a character of a key. -/
theorem run_dead {t : Cursor CodePoint} {c : CodePoint} {rest : Text} (hc : isInner c = true) (ht : t.rest = c :: rest)
    (r : Regex CodePoint) :
    (Regex.seq (.star Text.isSpace) (.seq (.chars (among ":=")) r)).run (isWord u) t = [] := by
  simp only [isInner, Bool.and_eq_true, Bool.not_eq_true'] at hc
  rw [run_seq, run_star, ht, starFrom, hc.1.1.1, if_neg (by simp), List.flatMap_singleton, run_seq, run_chars]
  simp only
  rw [hc.1.1.2, if_neg (by simp)]
  rfl

theorem separator_alike (hkey : Trig .sensitiveKv key) {s s' : Cursor CodePoint} (h : BeforeKey key e e' s s') :
    List.Forall₂ (fun t t' => BeforeKey key e e' t t' ∨ PastQuote key e e' t t')
      (separator.run (isWord u) s) (separator.run (isWord u) s') := by
  refine List.rel_flatMap (optQuote_alike h) ?_
  rintro t t' (ht | ht)
  · refine List.rel_flatMap (run_beforeKey (by decide) ht) fun m m' hm => ?_
    refine List.rel_flatMap (run_beforeKey (by decide) hm) fun m m' hm => ?_
    refine List.rel_flatMap (run_beforeKey (by decide) hm) fun m m' hm => ?_
    exact optQuote_alike hm
  · obtain ⟨c, rest, rfl, hc⟩ := key_cons hkey
    change List.Forall₂ _ (run _ (.seq _ (.seq _ _)) t) (run _ (.seq _ (.seq _ _)) t')
    rw [run_dead hc (by rw [ht.rest, List.cons_append]), run_dead hc (by rw [ht.rest', List.cons_append])]
    exact .nil

/-- A match that begins before the key is the same whatever follows the key, or it takes the quote
before the key and the beginning of the key for a value. -/
theorem sensitiveKv_alike (hkey : Trig .sensitiveKv key) (he : Stop quote e) (he' : Stop quote e') {s s' : Cursor CodePoint}
    (h : BeforeKey key e e' s s') :
    List.Forall₂ (fun t t' => BeforeKey key e e' t t' ∨ t.rest.length < (quote :: (key ++ e)).length)
      (sensitiveKv.run (isWord u) s) (sensitiveKv.run (isWord u) s') := by
  refine List.rel_flatMap (run_beforeKey rfl h) fun s s' h => ?_
  refine List.rel_flatMap (run_beforeKey (by decide) h) fun s s' h => ?_
  have hgroup := groups_alike h.alike (fun t t' ht => ht.elim BeforeKey.alike PastQuote.alike)
    (separator_alike (u := u) hkey h) 2
  refine List.rel_flatMap hgroup ?_
  rintro t t' ⟨m, m', hm | hm, hrest, hrest', halike⟩
  · obtain ⟨x, hx, hx'⟩ := hm.rest
    have ht : BeforeKey key e e' t t' := ⟨halike.prev, halike.groups, x, hrest.trans hx, hrest'.trans hx'⟩
    exact (run_beforeKey rfl ht).imp fun _ _ => .inl
  · have hvalue := run_alike (isWord_quote u) he he' (r := .group 3 (.rep false 1 512 (.chars isValueChar))) rfl halike
    have htaken : ∀ c ∈ run (isWord u) (.group 3 (.rep false 1 512 (.chars isValueChar))) t,
        ∃ x, key ++ e = x ++ c.rest := fun c hc => by
      obtain ⟨x, hx, -⟩ := takes_any _ t c hc
      exact ⟨x, by rw [← hx, hrest, hm.rest]⟩
    refine ((List.forall₂_and_left _ _).2 ⟨htaken, hvalue⟩).imp ?_
    rintro c c' ⟨⟨x, hx⟩, -⟩
    have hlen := congrArg List.length hx
    rw [List.length_append, List.length_append] at hlen
    rw [List.length_cons, List.length_append]
    exact .inr (by omega)

/-- A match begins with a letter, which could as well be part of a value. -/
theorem takes_kv (u : CharTables) : sensitiveKv.Takes (isWord u) fun x => ∃ c rest, x = c :: rest ∧ isValueChar c = true := by
  refine (takes_boundary.seq ((takes_kvKey u).seq (takes_any _))).mono ?_
  rintro _ ⟨_, _, rfl, rfl, w, x, rfl, ⟨k, hk, hw⟩, -⟩
  obtain ⟨hchars, -, hne⟩ := names_chars k (kvKey_name hk).2
  cases hw with
  | nil => exact absurd rfl hne
  | @cons d c k w hdc _ =>
    refine ⟨c, w ++ x, rfl, ?_⟩
    rw [List.all_cons, Bool.and_eq_true] at hchars
    by_cases hodd : c ∈ oddLetters
    · have hall : oddLetters.all isValueChar = true := by decide
      exact List.all_eq_true.1 hall c hodd
    · have hascii : d.val < 128 := by
        have h := (kvKey_name hk).1
        rw [List.all_cons, Bool.and_eq_true, decide_eq_true_eq] at h
        exact h.1
      have hlower := (sameLetter_plain hascii hdc hodd).2
      have hinner := key_char (hlower ▸ hchars.1)
      rw [isInner, Bool.and_eq_true] at hinner
      exact hinner.2

theorem matchAt_kv_none {prev : Option CodePoint} {c : CodePoint} {rest : Text} (hc : isValueChar c = false) :
    sensitiveKv.matchAt (isWord u) prev (c :: rest) = none := by
  refine Option.eq_none_iff_forall_ne_some.2 fun t ht => ?_
  obtain ⟨hrest, d, x, hx, hd⟩ := matchAt_taken (takes_kv u) ht
  rw [hx, List.cons_append, List.cons.injEq] at hrest
  rw [hrest.1, hd] at hc
  cases hc

theorem takes_kv_ne (u : CharTables) : sensitiveKv.Takes (isWord u) (· ≠ []) := (takes_kv u).mono fun x hx => by
  obtain ⟨c, rest, rfl, -⟩ := hx
  exact List.cons_ne_nil c rest

/-- The scan comes to the place where `after` is left. -/
inductive Reaches (isWord : CodePoint → Bool) (r : Regex CodePoint) (after : Text) : Option CodePoint → Text → Prop
  | here {prev : Option CodePoint} : Reaches isWord r after prev after
  | skip {prev : Option CodePoint} {c : CodePoint} {rest : Text} : r.matchAt isWord prev (c :: rest) = none →
      Reaches isWord r after (some c) rest → Reaches isWord r after prev (c :: rest)
  | leap {prev : Option CodePoint} {c : CodePoint} {rest : Text} {t : Cursor CodePoint} :
      r.matchAt isWord prev (c :: rest) = some t → Reaches isWord r after t.prev t.rest →
      Reaches isWord r after prev (c :: rest)

theorem Reaches.length_le {isWord : CodePoint → Bool} {r : Regex CodePoint} {after rest : Text} {prev : Option CodePoint}
    (h : Reaches isWord r after prev rest) : after.length ≤ rest.length := by
  induction h with
  | here => exact le_rfl
  | skip _ _ ih => exact ih.trans (by simp)
  | leap ht _ ih => exact ih.trans (length_le_of_matchAt ht)

/-- A scan that comes to the quote before the key does so whatever follows the key, and has
made the same of what is before. -/
theorem scan_beforeKey (hkey : Trig .sensitiveKv key) {prev : Option CodePoint} {rest : Text}
    (h : Reaches (isWord u) sensitiveKv (quote :: (key ++ [quote])) prev rest) :
    ∀ a, rest = a ++ quote :: (key ++ [quote]) → ∃ out prev', ∀ y : Text,
      subAt (isWord u) sensitiveKv (replacement .sensitiveKv) prev (a ++ quote :: (key ++ quote :: y)) =
        out ++ subAt (isWord u) sensitiveKv (replacement .sensitiveKv) prev' (quote :: (key ++ quote :: y)) := by
  induction h with
  | @here prev =>
    intro a ha
    obtain rfl : a = [] := List.append_left_eq_self.1 ha.symm
    exact ⟨[], prev, fun _ => rfl⟩
  | @skip prev c rest hnone hreach ih =>
    intro a ha
    cases a with
    | nil =>
      obtain ⟨-, rfl⟩ := List.cons.inj ha
      exact absurd hreach.length_le (by simp)
    | cons d a =>
      obtain ⟨rfl, rfl⟩ := List.cons.inj ha
      obtain ⟨out, prev', hout⟩ := ih a rfl
      refine ⟨c :: out, prev', fun y => ?_⟩
      have hplaces : BeforeKey key [quote] (quote :: y) ⟨prev, c :: (a ++ quote :: (key ++ [quote])), []⟩
          ⟨prev, c :: (a ++ quote :: (key ++ quote :: y)), []⟩ := ⟨rfl, rfl, c :: a, rfl, rfl⟩
      rcases head_alike (sensitiveKv_alike (u := u) hkey (stop_cons _) (stop_cons _) hplaces) with
        ⟨-, hnone'⟩ | ⟨t, -, ht, -⟩
      · rw [List.cons_append, subAt_none hnone', hout y, List.cons_append]
      · cases ht.symm.trans hnone
  | @leap prev c rest t ht hreach ih =>
    intro a ha
    cases a with
    | nil =>
      obtain ⟨rfl, -⟩ := List.cons.inj ha
      rw [matchAt_kv_none (by decide)] at ht
      cases ht
    | cons d a =>
      obtain ⟨rfl, rfl⟩ := List.cons.inj ha
      have hplaces : ∀ y, BeforeKey key [quote] (quote :: y) ⟨prev, c :: (a ++ quote :: (key ++ [quote])), []⟩
          ⟨prev, c :: (a ++ quote :: (key ++ quote :: y)), []⟩ := fun y => ⟨rfl, rfl, c :: a, rfl, rfl⟩
      have hmatch : ∀ y, ∃ t', sensitiveKv.matchAt (isWord u) prev (c :: (a ++ quote :: (key ++ quote :: y))) = some t' ∧
          BeforeKey key [quote] (quote :: y) t t' := by
        intro y
        rcases head_alike (sensitiveKv_alike (u := u) hkey (stop_cons _) (stop_cons _) (hplaces y)) with
          ⟨hnone, -⟩ | ⟨t₁, t', ht₁, ht', hbefore | hlt⟩
        · cases hnone.symm.trans ht
        · obtain rfl : t₁ = t := Option.some.inj (ht₁.symm.trans ht)
          exact ⟨t', ht', hbefore⟩
        · obtain rfl : t₁ = t := Option.some.inj (ht₁.symm.trans ht)
          exact absurd hreach.length_le (by omega)
      obtain ⟨_, -, hbefore⟩ := hmatch []
      obtain ⟨x, hx, -⟩ := hbefore.rest
      obtain ⟨out, prev', hout⟩ := ih x hx
      refine ⟨replacement .sensitiveKv t ++ out, prev', fun y => ?_⟩
      obtain ⟨t', ht', hbefore⟩ := hmatch y
      obtain ⟨x', hx', hrest⟩ := hbefore.rest
      obtain rfl : x' = x := List.append_cancel_right (hx'.symm.trans hx)
      rw [List.cons_append, subAt_some ht' (length_lt_of_matchAt (takes_kv_ne u) ht'),
        replacement_groups _ t t' hbefore.groups, hbefore.prev, hrest, hout y, List.append_assoc]

end

/-! ## At the key -/

section

variable {u : CharTables} {key value rest : Text}

/-- What separates the key and the value. -/
def between : Text := quote :: (Text.ofString ": " ++ [quote])

/-- What of the key is left, if not the whole key is taken. -/
structure KeyPart (key rest : Text) (t : Cursor CodePoint) (left : Text) : Prop where
  split : ∃ w, key = w ++ left ∧ t.groups = [(1, w)]
  rest : t.rest = left ++ quote :: rest

theorem keys_avoid : (Regex.oneOf (kvKeys.map word)).avoids quote = true := by decide

theorem keys_groupless : (Regex.oneOf (kvKeys.map word)).groupless = true := by decide

theorem key_parts {prev : Option CodePoint} {t : Cursor CodePoint}
    (ht : t ∈ (Regex.group 1 (.oneOf (kvKeys.map word))).run (isWord u) ⟨prev, key ++ quote :: rest, []⟩) :
    ∃ left, KeyPart key rest t left := by
  obtain ⟨m, hm, rfl⟩ := List.mem_map.1 ht
  obtain ⟨left, hleft⟩ := rest_of_avoids (isWord_quote u) keys_avoid rfl m hm
  obtain ⟨w, hw, -⟩ := takes_any _ _ _ hm
  simp only [hleft, ← List.append_assoc] at hw
  have hkey : key = w ++ left := List.append_cancel_right hw
  refine ⟨left, ⟨w, hkey, ?_⟩, hleft⟩
  have htake : (key ++ quote :: rest).take ((key ++ quote :: rest).length - m.rest.length) = w := by
    rw [hleft, hkey, List.append_assoc, List.length_append, Nat.add_sub_cancel, List.take_left]
  simp only [groups_of_groupless keys_groupless _ m hm, htake, List.nil_append]

theorem sameLetter_lowerChar {c : CodePoint} : sameLetter (lowerChar c) c = true := by
  by_cases hkelvin : c = kelvinSign
  · subst hkelvin
    decide
  · simp [sameLetter, lowerChar, hkelvin]

/-- One of the keys takes the whole key. -/
theorem exists_key (hkey : Trig .sensitiveKv key) (prev : Option CodePoint) :
    ∃ t ∈ (Regex.group 1 (.oneOf (kvKeys.map word))).run (isWord u) ⟨prev, key ++ quote :: rest, []⟩,
      t.rest = quote :: rest := by
  have hnames : sensitiveFieldNames.all kvKeys.contains = true := by decide
  have hmem : key.map lowerChar ∈ kvKeys := List.contains_iff_mem.1 (List.all_eq_true.1 hnames _ hkey.2)
  have hrow : List.Forall₂ (fun p c => p c = true) ((key.map lowerChar).map sameLetter) key := by
    rw [List.forall₂_map_left_iff, List.forall₂_map_left_iff, List.forall₂_same]
    exact fun _ _ => sameLetter_lowerChar
  have hstart : (⟨prev, key ++ quote :: rest, []⟩ : Cursor CodePoint).rest = key ++ quote :: rest := rfl
  obtain ⟨t, ht, hrest⟩ := exists_run_row hrow hstart
  exact ⟨_, List.mem_map_of_mem (mem_run_oneOf (List.mem_map_of_mem hmem) ht), hrest⟩

/-- Between a part of a key and the rest of it nothing separates. -/
theorem separator_none {t : Cursor CodePoint} {c : CodePoint} {left : Text} (hc : isInner c = true)
    (ht : t.rest = c :: left) : separator.run (isWord u) t = [] := by
  have hquote : (oneChar '"').run (isWord u) t = [] := by
    rw [oneChar, run_chars, ht]
    simp only [isInner, Bool.and_eq_true, decide_eq_true_eq] at hc
    exact if_neg (by simpa [quote] using hc.1.2)
  change ((Regex.opt (oneChar '"')).run (isWord u) t).flatMap _ = []
  rw [run_opt, hquote, List.nil_append, List.flatMap_singleton]
  exact run_dead hc ht _

/-- The ways to separate a key in quotes from a value in quotes. -/
theorem separator_ways {prev : Option CodePoint} {groups : List (Nat × Text)} (after : Text) :
    separator.run (isWord u) ⟨prev, quote :: (Text.ofString ": " ++ quote :: after), groups⟩ =
      [⟨some quote, after, groups⟩, ⟨some (char ' '), quote :: after, groups⟩,
        ⟨some (char ':'), char ' ' :: quote :: after, groups⟩] := by
  rfl

/-- The value is taken up to the first character that ends it. -/
theorem value_first {t : Cursor CodePoint} (ht : t.rest = value ++ rest) (hvalue : value.all isValueChar = true)
    (hrest : rest.head?.any isValueChar = false) (hmin : 1 ≤ value.length) (hmax : value.length ≤ 512) :
    ∃ m, ((Regex.group 3 (.rep false 1 512 (.chars isValueChar))).run (isWord u) t).head? = some m ∧ m.rest = rest ∧
      m.groups = t.groups ++ [(3, value)] := by
  obtain ⟨m, hm, hmrest⟩ : ∃ m,
      (Regex.repeatFrom ((Regex.chars isValueChar).run (isWord u)) false 1 512 t).head? = some m ∧ m.rest = rest :=
    head_repeat hvalue hrest ht hmin hmax
  have hgroups := groups_of_groupless (r := .rep false 1 512 (.chars isValueChar)) rfl t m (List.mem_of_mem_head? hm)
  have htake : t.rest.take (t.rest.length - m.rest.length) = value := by
    rw [ht, hmrest, List.length_append, Nat.add_sub_cancel, List.take_left]
  refine ⟨{ m with groups := m.groups ++ [(3, t.rest.take (t.rest.length - m.rest.length))] }, ?_, hmrest, ?_⟩
  · rw [run_group, List.head?_map, run_rep, hm]
    rfl
  · simp only [htake, hgroups]

/-- After the whole key, the value is what is taken first. -/
theorem after_key {t : Cursor CodePoint} (ht : t.rest = quote :: (Text.ofString ": " ++ quote :: (value ++ rest)))
    (hvalue : value.all isValueChar = true) (hrest : rest.head?.any isValueChar = false) (hmin : 1 ≤ value.length)
    (hmax : value.length ≤ 512) :
    ∃ m, ((Regex.seq (.group 2 separator) (.group 3 (.rep false 1 512 (.chars isValueChar)))).run (isWord u) t).head? =
      some m ∧ m.rest = rest ∧ m.groups = t.groups ++ [(2, between), (3, value)] := by
  obtain ⟨prev, rest', groups⟩ := t
  obtain rfl : rest' = _ := ht
  have hbetween : quote :: (Text.ofString ": " ++ quote :: (value ++ rest)) = between ++ (value ++ rest) := by
    simp [between]
  have htake : (quote :: (Text.ofString ": " ++ quote :: (value ++ rest))).take
      ((quote :: (Text.ofString ": " ++ quote :: (value ++ rest))).length - (value ++ rest).length) = between := by
    rw [hbetween, List.length_append, Nat.add_sub_cancel, List.take_left]
  have hstart : (⟨some quote, value ++ rest, groups ++ [(2, between)]⟩ : Cursor CodePoint).rest = value ++ rest := rfl
  obtain ⟨m, hm, hmrest, hmgroups⟩ := value_first (u := u) hstart hvalue hrest hmin hmax
  refine ⟨m, ?_, hmrest, by rw [hmgroups, List.append_assoc]; rfl⟩
  rw [run_seq, run_group, separator_ways, List.map_cons, List.flatMap_cons, List.head?_append]
  simp only [htake]
  rw [hm]
  rfl

/-- The match at the key takes the value, and whatever part of a key there is besides leads nowhere. -/
theorem matchAt_key (hkey : Trig .sensitiveKv key) (hvalue : value.all isValueChar = true)
    (hrest : rest.head?.any isValueChar = false) (hmin : 1 ≤ value.length) (hmax : value.length ≤ 512) :
    ∃ t, sensitiveKv.matchAt (isWord u) (some quote) (key ++ quote :: (Text.ofString ": " ++ quote :: (value ++ rest))) =
      some t ∧ t.rest = rest ∧ t.groups = [(1, key), (2, between), (3, value)] := by
  have hboundary : (boundary : Regex CodePoint).run (isWord u)
      ⟨some quote, key ++ quote :: (Text.ofString ": " ++ quote :: (value ++ rest)), []⟩ =
        [⟨some quote, key ++ quote :: (Text.ofString ": " ++ quote :: (value ++ rest)), []⟩] := by
    obtain ⟨c, left, rfl, -⟩ := key_cons hkey
    have hword := key_boundary u hkey
    rw [List.head?_cons, Option.any_some] at hword
    simp [run_boundary, isWord_quote, hword]
  have hways : sensitiveKv.run (isWord u) ⟨some quote, key ++ quote :: (Text.ofString ": " ++ quote :: (value ++ rest)), []⟩ =
      ((Regex.group 1 (.oneOf (kvKeys.map word))).run (isWord u)
        ⟨some quote, key ++ quote :: (Text.ofString ": " ++ quote :: (value ++ rest)), []⟩).flatMap
          ((Regex.seq (.group 2 separator) (.group 3 (.rep false 1 512 (.chars isValueChar)))).run (isWord u)) := by
    change (run _ boundary _).flatMap _ = _
    rw [hboundary, List.flatMap_singleton]
    rfl
  rw [matchAt, hways]
  refine head_flatMap (fun t ht => ?_) ?_
  · obtain ⟨left, ⟨w, hw, hgroups⟩, hleft⟩ := key_parts ht
    cases left with
    | nil =>
      rw [List.append_nil] at hw
      obtain ⟨m, hm, hmrest, hmgroups⟩ := after_key (u := u) hleft hvalue hrest hmin hmax
      exact .inr ⟨m, hm, hmrest, by rw [hmgroups, hgroups, hw]; rfl⟩
    | cons c left =>
      have hc := key_inner hkey c (by rw [hw]; simp)
      have hnone := separator_none (u := u) hc hleft
      rw [run_seq, run_group, hnone]
      exact .inl rfl
  · obtain ⟨t, ht, htrest⟩ := exists_key (u := u) hkey (some quote)
    obtain ⟨m, hm, -⟩ := after_key (u := u) htrest hvalue hrest hmin hmax
    refine ⟨t, ht, fun hnil => ?_⟩
    rw [hnil] at hm
    cases hm

end

/-! ## The value -/

/-- Of the value something, and no more than fits, comes before the first character that ends it. -/
def Covered (value : Text) : Prop :=
  1 ≤ (value.takeWhile isValueChar).length ∧ (value.takeWhile isValueChar).length ≤ 512

section

variable {u : CharTables} {pre key value value' post : Text}

/-- A text that begins with what ends a value goes on the same whatever was matched before it. -/
theorem subAt_end {c : CodePoint} {rest : Text} (hc : isValueChar c = false) (prev : Option CodePoint) :
    subAt (isWord u) sensitiveKv (replacement .sensitiveKv) prev (c :: rest) =
      c :: subAt (isWord u) sensitiveKv (replacement .sensitiveKv) (some c) rest :=
  subAt_none (matchAt_kv_none hc)

theorem kv_key (hkey : Trig .sensitiveKv key) (hvalue : Covered value) {c : CodePoint} {rest : Text}
    (hrest : value.dropWhile isValueChar ++ quote :: post = c :: rest) (prev : Option CodePoint) :
    subAt (isWord u) sensitiveKv (replacement .sensitiveKv) prev
        (quote :: (key ++ quote :: (Text.ofString ": " ++ quote :: (value ++ quote :: post)))) =
      quote :: (key ++ between ++ redacted ++
        c :: subAt (isWord u) sensitiveKv (replacement .sensitiveKv) (some c) rest) := by
  have hc : isValueChar c = false := by
    have hend := List.head?_dropWhile_not isValueChar value
    cases hdrop : value.dropWhile isValueChar with
    | nil =>
      rw [hdrop] at hrest
      rw [← (List.cons.inj hrest).1]
      decide
    | cons d left =>
      rw [hdrop] at hrest hend
      rw [← (List.cons.inj hrest).1]
      exact hend
  have hsplit : value ++ quote :: post = value.takeWhile isValueChar ++ c :: rest := by
    rw [← hrest, ← List.append_assoc, List.takeWhile_append_dropWhile]
  have hall : (value.takeWhile isValueChar).all isValueChar = true := List.all_takeWhile
  have hends : (c :: rest).head?.any isValueChar = false := by simpa using hc
  obtain ⟨t, ht, htrest, htgroups⟩ := matchAt_key (u := u) hkey hall hends hvalue.1 hvalue.2
  have hreplaced : replacement .sensitiveKv t = key ++ between ++ redacted := by
    rw [replacement, groupText, groupText, htgroups]
    rfl
  rw [subAt_end (by decide), hsplit]
  obtain ⟨d, left, rfl, -⟩ := key_cons hkey
  rw [List.cons_append] at ht ⊢
  rw [subAt_some ht (length_lt_of_matchAt (takes_kv_ne u) ht), hreplaced, htrest, subAt_end hc, List.cons_append]

/-- The scan for keys and values, of a text as the header rule leaves it, comes to the key. -/
def ComesToKey (u : CharTables) (pre key : Text) : Prop :=
  Reaches (isWord u) sensitiveKv (quote :: (key ++ [quote])) none (pre ++ quote :: (key ++ [quote]))

theorem kv_agrees (post : Text) (hkey : Trig .sensitiveKv key) (hreach : ComesToKey u pre key) (hvalue : Covered value)
    (hvalue' : Covered value') (htail : value.dropWhile isValueChar = value'.dropWhile isValueChar) :
    apply u .sensitiveKv (withSecret pre key value post) = apply u .sensitiveKv (withSecret pre key value' post) := by
  obtain ⟨out, prev, hout⟩ := scan_beforeKey hkey hreach pre rfl
  obtain ⟨c, rest, hrest⟩ : ∃ c rest, value.dropWhile isValueChar ++ quote :: post = c :: rest :=
    List.exists_cons_of_ne_nil (by simp)
  have hrest' : value'.dropWhile isValueChar ++ quote :: post = c :: rest := by rw [← htail, hrest]
  change subAt _ _ _ none _ = subAt _ _ _ none _
  rw [pattern, withSecret, withSecret, hout, hout, kv_key hkey hvalue hrest, kv_key hkey hvalue' hrest']

/-- The pre-scan sees the key. -/
theorem scan_withSecret {lower : Text → Text} (hlower : LowersPlain lower) (hkey : Trig .sensitiveKv key) :
    mayContainSecret defaultRules (lower (withSecret pre key value post)) = true := by
  refine mayContainSecret_of_trig hlower (show RuleName.sensitiveKv ∈ defaultRules by decide) ⟨key, hkey, List.infix_refl key⟩ ?_
  exact ⟨pre ++ [quote], quote :: (Text.ofString ": " ++ quote :: (value ++ quote :: post)), by simp [withSecret]⟩

/-- Two texts that differ only in a secret, each of which is taken up to what the two have in
common, are masked alike. -/
theorem secret_hidden {lower : Text → Text} (hlower : LowersPlain lower) (hkey : Trig .sensitiveKv key)
    (hlen : (withSecret pre key value post).length ≤ maxMaskableLength)
    (hlen' : (withSecret pre key value' post).length ≤ maxMaskableLength)
    (hreach : ComesToKey u (apply u .authorizationHeader pre) key)
    (hvalue : Covered (applyQuoted u .authorizationHeader value))
    (hvalue' : Covered (applyQuoted u .authorizationHeader value'))
    (htail : (applyQuoted u .authorizationHeader value).dropWhile isValueChar =
      (applyQuoted u .authorizationHeader value').dropWhile isValueChar) :
    (masker u lower defaultRules).maskText (withSecret pre key value post) =
      (masker u lower defaultRules).maskText (withSecret pre key value' post) := by
  have hheader := header_withSecret u (key_length hkey) pre
  have hkv := kv_agrees (applyQuoted u .authorizationHeader post) hkey hreach hvalue hvalue' htail
  have hfirst : ∀ text, slowPath u defaultRules text = slowPath u [.jwt, .vendorKey, .privateKeyBlock, .email]
      (apply u .sensitiveKv (apply u .authorizationHeader text)) := fun _ => rfl
  rw [maskText_eq u lower _ hlen, maskText_eq u lower _ hlen', if_pos (scan_withSecret hlower hkey),
    if_pos (scan_withSecret hlower hkey), hfirst, hfirst, hheader, hheader, hkv]

end

theorem secret_hidden_hunter : (masker oddTables (List.map lowerChar) defaultRules).maskText
      (withSecret (Text.ofString "\x7b") (Text.ofString "password") (Text.ofString "hunter2") (Text.ofString "\x7d")) =
    (masker oddTables (List.map lowerChar) defaultRules).maskText
      (withSecret (Text.ofString "\x7b") (Text.ofString "password") (Text.ofString "letmein!") (Text.ofString "\x7d")) := by
  refine secret_hidden lowersPlain_map ⟨by decide, by decide⟩ (by decide) (by decide) (.skip (by decide) .here)
    ⟨by decide, by decide⟩ ⟨by decide, by decide⟩ (by decide)

/-- Of a passphrase only the first word is redacted. -/
theorem passphrase_leaks : (masker oddTables (List.map lowerChar) defaultRules).maskText
      (withSecret (Text.ofString "\x7b") (Text.ofString "password") (Text.ofString "a b") (Text.ofString "\x7d")) ≠
    (masker oddTables (List.map lowerChar) defaultRules).maskText
      (withSecret (Text.ofString "\x7b") (Text.ofString "password") (Text.ofString "a c") (Text.ofString "\x7d")) := by
  decide

end LogAnalytics.MaskingRules
