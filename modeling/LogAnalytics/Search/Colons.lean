import Mathlib.Data.List.Infix
import Mathlib.Data.List.TakeWhile
import LogAnalytics.Search.RoundTrip
import LogAnalytics.Search.Injection
/-!
# Colons in values

What the tokenizer makes of `field=value` for a value of word characters and colons. The value
stays whole unless it has a run too long for a token, or a colon at which the text before it is
empty or the name of a field.
-/

namespace LogAnalytics.Search

variable {case : TextCase}

/-! ## Runs of word characters -/

/-- The names on the allow-list: columns and aliases. -/
def fieldNames : List Text := (Column.all.map Column.name ++ Column.aliases.map Prod.fst).map Text.ofString

/-- No run of word characters is longer than a token. -/
def ShortRuns (value : Text) : Prop := ∀ t, t <:+ value → (t.takeWhile isWordChar).length ≤ maxValueLength

/-- The characters such a value is made of. -/
def ValueChars (value : Text) : Prop := ∀ c ∈ value, isWordChar c = true ∨ c = chr ':'

theorem colon_char : isWordChar (chr ':') = false := by decide

theorem fieldNames_word : ∀ f ∈ fieldNames, f ≠ [] ∧ f.all isWordChar = true ∧ f.length ≤ 32 ∧ f.strip = f ∧ f.isAscii = true ∧
    (Column.ofKey (f.map Text.asciiLower)).isSome = true := by decide

/-- A token of the longest run of word characters that fits. -/
theorem matchToken_run {c : CodePoint} (hc : isWordChar c = true) (text : Text) :
    matchToken (c :: text) = some (.token .word (((c :: text).takeWhile isWordChar).take maxValueLength)
      (((c :: text).takeWhile isWordChar).take maxValueLength).length
      ((c :: text).drop (((c :: text).takeWhile isWordChar).take maxValueLength).length)) := by
  have hspace : Text.isSpace c = false := by
    rw [isWordChar, Bool.and_eq_true, Bool.not_eq_true'] at hc
    exact hc.1
  have hother : ∀ d, isWordChar d = false → c ≠ d := by
    rintro d hd rfl
    rw [hc] at hd
    cases hd
  have hquoted : ∀ q, c ≠ q → matchQuoted q (c :: text) = none := fun q hq => by rw [matchQuoted, if_neg hq]
  have hne : ((c :: text).takeWhile isWordChar).take maxValueLength ≠ [] := by
    rw [List.takeWhile_cons_of_pos hc]
    exact List.cons_ne_nil _ _
  rw [matchToken, hspace, if_neg Bool.false_ne_true, if_neg (hother _ (by decide)), if_neg (hother _ (by decide)),
    find_operator_word hc]
  dsimp only
  rw [if_neg (hother _ (by decide)), hquoted _ (hother _ (by decide)), hquoted _ (hother _ (by decide))]
  dsimp only [Option.or]
  rw [if_neg hne]

theorem matchToken_colon (text : Text) : matchToken (chr ':' :: text) = some (.token .op (Text.ofString ":") 1 text) := by
  have hfind : operatorPatterns.find? (·.isPrefixOf (chr ':' :: text)) = some (Text.ofString ":") := rfl
  rw [matchToken, if_neg (by decide), if_neg (by decide), if_neg (by decide), hfind]
  rfl

/-- `=` before a character that does not lengthen it. -/
theorem matchToken_equals {c : CodePoint} (hc : c ≠ chr '=') (text : Text) :
    matchToken (chr '=' :: c :: text) = some (.token .op (Text.ofString "=") 1 (c :: text)) := by
  have hne : (chr '=' == c) = false := by simpa using hc.symm
  have hlonger : (Text.ofString "==").isPrefixOf (chr '=' :: c :: text) = false := by
    rw [show Text.ofString "==" = [chr '=', chr '='] from rfl, List.isPrefixOf_cons_cons, List.isPrefixOf_cons_cons, hne]
    rfl
  have hother : ∀ op ∈ [">=", "<=", "!=", "<>"].map Text.ofString, op.isPrefixOf (chr '=' :: c :: text) = false := by
    simp only [List.map_cons, List.map_nil, List.forall_mem_cons]
    exact ⟨rfl, rfl, rfl, rfl, by simp⟩
  simp only [List.map_cons, List.map_nil, List.forall_mem_cons] at hother
  obtain ⟨hge, hle, hne', hltGt, -⟩ := hother
  have hfind : operatorPatterns.find? (·.isPrefixOf (chr '=' :: c :: text)) = some (Text.ofString "=") := by
    simp only [operatorPatterns, List.map_cons, List.find?_cons, hge, hle, hne', hltGt, hlonger]
    rfl
  rw [matchToken, if_neg (by decide), if_neg (by decide), if_neg (by decide), hfind]
  rfl

/-! ## Merging -/

/-- What is below the last token merged stays as it is. -/
theorem mergeLoop_base (case : TextCase) (n : Nat) : ∀ tokens : List Token, tokens.length ≤ n → ∀ x merged,
    mergeLoop case (x :: merged) tokens = merged.reverse ++ mergeLoop case [x] tokens := by
  induction n with
  | zero =>
    intro tokens hlen x merged
    rw [List.length_eq_zero_iff.1 (Nat.le_zero.1 hlen), mergeLoop_nil, mergeLoop_nil, List.reverse_cons]
    rfl
  | succ n ih =>
    intro tokens hlen x merged
    rcases tokens with _ | ⟨t, rest⟩
    · rw [mergeLoop_nil, mergeLoop_nil, List.reverse_cons]
      rfl
    · have hrest : rest.length ≤ n := Nat.le_of_succ_le_succ hlen
      cases hcolon : isValueColon case x t with
      | false =>
        rw [mergeLoop_keep hcolon, mergeLoop_keep hcolon, ih rest hrest t (x :: merged), ih rest hrest t [x],
          List.reverse_cons, List.append_assoc]
        rfl
      | true =>
        by_cases hword : ∃ following rest', rest = following :: rest' ∧ following.kind = .word ∧
            following.position = t.position + 1
        · obtain ⟨following, rest', rfl, hkind, hposition⟩ := hword
          rw [mergeLoop_word hcolon hkind hposition, mergeLoop_word hcolon hkind hposition,
            ih rest' (Nat.le_of_succ_le hrest)]
        · have hother : ∀ f ∈ rest.head?, ¬ (f.kind = .word ∧ f.position = t.position + 1) := by
            intro f hf h
            obtain ⟨rest', rfl⟩ := List.head?_eq_some_iff.1 hf
            exact hword ⟨f, rest', rfl, h⟩
          rw [mergeLoop_colon hcolon hother, mergeLoop_colon hcolon hother, ih rest hrest]

theorem mergeLoop_ne_nil (case : TextCase) (merged tokens : List Token) :
    (merged ≠ [] ∨ tokens ≠ []) → mergeLoop case merged tokens ≠ [] := by
  induction merged, tokens using mergeLoop.induct case with
  | case1 merged =>
    intro h
    rw [mergeLoop_nil]
    simpa using h
  | case2 token rest ih =>
    intro _
    rw [mergeLoop]
    exact ih (.inl (List.cons_ne_nil _ _))
  | case3 previous merged token hcolon =>
    intro _
    rw [mergeLoop, if_pos hcolon]
    simp
  | case4 previous merged token hcolon =>
    intro _
    rw [mergeLoop, if_neg hcolon]
    simp
  | case5 previous merged token following rest hcolon hword ih =>
    intro _
    rw [mergeLoop_word hcolon hword.1 hword.2]
    exact ih (.inl (List.cons_ne_nil _ _))
  | case6 previous merged token following rest hcolon hword ih =>
    intro _
    rw [mergeLoop, if_pos hcolon, if_neg hword]
    exact ih (.inl (List.cons_ne_nil _ _))
  | case7 previous merged token following rest hcolon ih =>
    intro _
    rw [mergeLoop, if_neg hcolon]
    exact ih (.inl (List.cons_ne_nil _ _))

/-- A token that is kept makes two. -/
theorem mergeLoop_two {x t : Token} (h : isValueColon case x t = false) (rest : List Token) :
    ∃ y ys, mergeLoop case [x] (t :: rest) = x :: y :: ys := by
  rw [mergeLoop_keep h, mergeLoop_base case _ rest (le_refl _) t [x]]
  obtain ⟨y, ys, hy⟩ := List.exists_cons_of_ne_nil (mergeLoop_ne_nil case [t] rest (.inl (List.cons_ne_nil _ _)))
  exact ⟨y, ys, by rw [hy]; rfl⟩

/-! ## Values -/

/-- Every part of a value before a colon joins it; the value is behind `p`. -/
def FreeColons (case : TextCase) (p value : Text) : Prop :=
  ∀ q, q ++ [chr ':'] <+: value → p ++ q ≠ [] ∧ isFieldName case (p ++ q) = false

theorem shortRuns_cons {c : CodePoint} (hc : isWordChar c = false) (value : Text) :
    ShortRuns (c :: value) ↔ ShortRuns value := by
  refine ⟨fun h t ht => h t (ht.trans (List.suffix_cons c value)), fun h t ht => ?_⟩
  rcases List.suffix_cons_iff.1 ht with rfl | ht
  · simp [hc]
  · exact h t ht

/-- A run before text that does not continue it. -/
theorem shortRuns_append {run : Text} (hrun : ∀ c ∈ run, isWordChar c = true) {rest : Text}
    (hrest : ∀ c ∈ rest.head?, isWordChar c = false) :
    ShortRuns (run ++ rest) ↔ run.length ≤ maxValueLength ∧ ShortRuns rest := by
  have htake : ∀ t : Text, (∀ c ∈ t, isWordChar c = true) → (t ++ rest).takeWhile isWordChar = t := by
    intro t ht
    rw [List.takeWhile_append_of_pos ht]
    cases rest with
    | nil => simp
    | cons c rest => simp [hrest c rfl]
  constructor
  · intro h
    refine ⟨?_, fun t ht => h t (ht.trans (List.suffix_append run rest))⟩
    have hwhole := h _ List.suffix_rfl
    rwa [htake run hrun] at hwhole
  · rintro ⟨hshort, h⟩ t ht
    rcases List.suffix_or_suffix_of_suffix ht (List.suffix_append run rest) with ht' | ht'
    · exact h t ht'
    · -- A suffix that begins in the run.
      obtain ⟨t', rfl⟩ := ht'
      obtain ⟨front, hfront⟩ := ht
      rw [← List.append_assoc, List.append_left_inj] at hfront
      rw [htake t' fun c hc => hrun c (hfront ▸ List.mem_append_right front hc)]
      have hlength := congrArg List.length hfront
      rw [List.length_append] at hlength
      omega

theorem freeColons_append {run : Text} (hrun : ∀ c ∈ run, c ≠ chr ':') (p rest : Text) :
    FreeColons case p (run ++ rest) ↔ FreeColons case (p ++ run) rest := by
  unfold FreeColons
  constructor
  · intro h q hq
    have := h (run ++ q) (by rw [List.append_assoc]; exact (List.prefix_append_right_inj run).2 hq)
    rwa [← List.append_assoc] at this
  · intro h q hq
    -- The colon is behind the run.
    obtain ⟨q', rfl⟩ : ∃ q', q = run ++ q' := by
      rcases List.prefix_or_prefix_of_prefix hq (List.prefix_append run rest) with hq' | hq'
      · exact absurd rfl (hrun _ (hq'.subset (List.mem_append_right q List.mem_cons_self)))
      · obtain ⟨q', hq'⟩ := hq'
        rcases List.eq_nil_or_concat q' with rfl | ⟨q'', c, rfl⟩
        · rw [List.append_nil] at hq'
          exact absurd rfl (hrun _ (hq' ▸ List.mem_append_right q List.mem_cons_self))
        · rw [List.concat_eq_append, ← List.append_assoc] at hq'
          exact ⟨q'', (List.append_inj_left' hq' rfl).symm⟩
    rw [List.append_assoc] at hq
    rw [← List.append_assoc]
    exact h q' ((List.prefix_append_right_inj run).1 hq)

theorem freeColons_cons (p value : Text) : FreeColons case p (chr ':' :: value) ↔
    (p ≠ [] ∧ isFieldName case p = false) ∧ FreeColons case (p ++ Text.ofString ":") value := by
  unfold FreeColons
  constructor
  · intro h
    refine ⟨?_, fun q hq => ?_⟩
    · have := h [] (by simp)
      rwa [List.append_nil] at this
    · have := h (chr ':' :: q) (by rw [List.cons_append]; exact (List.prefix_cons_inj _).2 hq)
      rwa [List.append_assoc]
  · rintro ⟨hp, h⟩ q hq
    cases q with
    | nil => rwa [List.append_nil]
    | cons c q =>
      rw [List.cons_append, List.cons_prefix_cons] at hq
      obtain ⟨rfl, hq⟩ := hq
      have := h q hq
      rwa [List.append_assoc] at this

/-- The tokens of such a value. -/
theorem lex_value (position : Nat) (value : Text) : ValueChars value → ∃ tokens, lex position value = .ok tokens := by
  -- A word character and a colon both begin a token, which leaves an end of the value.
  have hstep : ∀ {c : CodePoint} {value : Text}, ValueChars (c :: value) → ∃ kind text length left,
      matchToken (c :: value) = some (.token kind text length left) ∧ left <:+ c :: value := by
    intro c value hchars
    rcases hchars c List.mem_cons_self with hc | rfl
    · exact ⟨_, _, _, _, matchToken_run hc value, List.drop_suffix _ _⟩
    · exact ⟨_, _, _, _, matchToken_colon value, List.suffix_cons _ _⟩
  induction position, value using lex.induct with
  | case1 position => exact fun _ => ⟨[], lex_nil position⟩
  | case2 position c rest hm =>
    intro hchars
    obtain ⟨kind, text, length, left, hmatch, -⟩ := hstep hchars
    rw [hm] at hmatch
    cases hmatch
  | case3 position c rest left hm _ ih =>
    intro hchars
    obtain ⟨kind, text, length, left', hmatch, -⟩ := hstep hchars
    rw [hm] at hmatch
    cases hmatch
  | case4 position c rest kind text length left hm _ ih =>
    intro hchars
    obtain ⟨kind', text', length', left', hmatch, hsuffix⟩ := hstep hchars
    rw [hm] at hmatch
    cases hmatch
    obtain ⟨tokens, htokens⟩ := ih fun d hd => hchars d (hsuffix.subset hd)
    exact ⟨_, by rw [lex_token hm, htokens]; rfl⟩

/-- A run of word characters at the beginning, and what is behind it. -/
theorem exists_run (text : Text) : ∃ run rest, text = run ++ rest ∧ (∀ c ∈ run, isWordChar c = true) ∧
    (∀ c ∈ rest.head?, isWordChar c = false) ∧ text.takeWhile isWordChar = run := by
  refine ⟨text.takeWhile isWordChar, text.dropWhile isWordChar, List.takeWhile_append_dropWhile.symm,
    fun c hc => List.mem_takeWhile_imp hc, fun c hc => ?_, rfl⟩
  have hnot := List.head?_dropWhile_not isWordChar text
  rw [Option.mem_def.1 hc] at hnot
  simpa using hnot

/-- What is left of a run that is cut is a token of its own. -/
theorem lex_cut {run left : Text} (hrun : ∀ c ∈ run, isWordChar c = true) (hlong : maxValueLength < run.length)
    {position : Nat} {tokens : List Token}
    (h : lex position ((run ++ left).drop (run.take maxValueLength).length) = .ok tokens) :
    ∃ t rest, tokens = t :: rest ∧ t.kind = .word := by
  obtain ⟨c, more, hmore⟩ : ∃ c more, run.drop maxValueLength = c :: more :=
    List.exists_cons_of_ne_nil fun h => absurd (List.drop_eq_nil_iff.1 h) (by omega)
  have hc : isWordChar c = true :=
    hrun c (List.mem_of_mem_drop (hmore.symm ▸ List.mem_cons_self : c ∈ run.drop maxValueLength))
  rw [List.length_take_of_le (by omega), List.drop_append_of_le_length (by omega), hmore, List.cons_append] at h
  obtain ⟨rest, -, rfl⟩ := lex_token_ok (matchToken_run hc (more ++ left)) h
  exact ⟨_, rest, rfl, rfl⟩

/-- The merging of what is behind a word, where no run continues it. -/
theorem mergeLoop_value (case : TextCase) (n : Nat) : ∀ (p : Text) (position : Nat) (rest : Text), rest.length ≤ n → p ≠ [] →
    ValueChars rest → (∀ c ∈ rest.head?, isWordChar c = false) → ∀ tokens, lex (position + p.length) rest = .ok tokens →
      (ShortRuns rest ∧ FreeColons case p rest →
        mergeLoop case [⟨.word, p, position⟩] tokens = [⟨.word, p ++ rest, position⟩]) ∧
      (¬ (ShortRuns rest ∧ FreeColons case p rest) →
        ∃ x y ys, mergeLoop case [⟨.word, p, position⟩] tokens = x :: y :: ys) := by
  induction n with
  | zero =>
    intro p position rest hlen _ _ _ tokens htokens
    rw [List.length_eq_zero_iff.1 (Nat.le_zero.1 hlen)] at htokens ⊢
    rw [lex_nil] at htokens
    cases htokens
    rw [mergeLoop_nil, List.append_nil]
    refine ⟨fun _ => rfl, fun h => absurd ⟨?_, ?_⟩ h⟩
    · intro t ht
      rw [List.suffix_nil.1 ht]
      exact Nat.zero_le _
    · intro q hq
      simp at hq
  | succ n ih =>
    intro p position rest hlen hp hchars hhead tokens htokens
    rcases rest with _ | ⟨c, rest⟩
    · exact ih p position [] (Nat.zero_le n) hp hchars hhead tokens htokens
    have hrest : rest.length ≤ n := Nat.le_of_succ_le_succ hlen
    obtain ⟨hc, hvalue⟩ := List.forall_mem_cons.1 hchars
    obtain rfl : c = chr ':' := hc.resolve_left (by simp [hhead c rfl])
    obtain ⟨tokens', htokens', rfl⟩ := lex_token_ok (matchToken_colon rest) htokens
    rw [shortRuns_cons colon_char, freeColons_cons]
    cases hfield : isFieldName case p with
    | true =>
      -- The colon is an operator behind a field.
      refine ⟨fun h => absurd h.2.1.2 Bool.noConfusion, fun _ => ?_⟩
      exact ⟨_, mergeLoop_two (by simp [isValueColon, hfield]) tokens'⟩
    | false =>
      have hglue : isValueColon case ⟨.word, p, position⟩ ⟨.op, Text.ofString ":", position + p.length⟩ = true := by
        simp [isValueColon, hfield]
      have hpart : (p ≠ [] ∧ false = false) ∧ FreeColons case (p ++ Text.ofString ":") rest ↔
          FreeColons case (p ++ Text.ofString ":") rest := and_iff_right ⟨hp, rfl⟩
      rw [hpart]
      obtain ⟨run, left, hsplit, hrun, hleft, htake⟩ := exists_run rest
      cases run with
      | nil =>
        -- Another colon, or the end.
        have hends : ∀ c ∈ rest.head?, isWordChar c = false := by rwa [hsplit]
        have hother : ∀ f ∈ tokens'.head?, ¬ (f.kind = .word ∧ f.position = position + p.length + 1) := by
          rcases rest with _ | ⟨d, rest⟩
          · rw [lex_nil] at htokens'
            cases htokens'
            simp
          · obtain rfl : d = chr ':' := (hvalue d List.mem_cons_self).resolve_left (by simp [hends d rfl])
            obtain ⟨tokens'', -, rfl⟩ := lex_token_ok (matchToken_colon rest) htokens'
            rintro f ⟨⟩
            simp
        have hnext : lex (position + (p ++ Text.ofString ":").length) rest = .ok tokens' := by
          rw [← htokens', List.length_append, ← Nat.add_assoc]
          rfl
        rw [mergeLoop_colon hglue hother]
        have hjoined := ih (p ++ Text.ofString ":") position rest hrest (by simp [hp]) hvalue hends tokens' hnext
        rwa [List.append_assoc] at hjoined
      | cons d run =>
        obtain rfl := hsplit
        have hd := hrun d List.mem_cons_self
        have hmatch := matchToken_run hd (run ++ left)
        rw [← List.cons_append, htake] at hmatch
        obtain ⟨tokens'', htokens'', rfl⟩ := lex_token_ok hmatch htokens'
        rw [mergeLoop_word hglue rfl rfl, shortRuns_append hrun hleft]
        by_cases hshort : (d :: run).length ≤ maxValueLength
        · have hchars' : ValueChars left := fun c hc => hvalue c (List.mem_append_right _ hc)
          have hlen' : left.length ≤ n := by
            rw [List.length_append] at hrest
            omega
          rw [List.take_of_length_le hshort] at htokens'' ⊢
          rw [List.drop_left] at htokens''
          have hnext : lex (position + (p ++ Text.ofString ":" ++ (d :: run)).length) left = .ok tokens'' := by
            rw [← htokens'']
            simp only [List.length_append, Nat.add_assoc]
            rfl
          have hjoined := ih (p ++ Text.ofString ":" ++ (d :: run)) position left hlen' (by simp [hp]) hchars' hleft tokens'' hnext
          have hcolon : ∀ c ∈ d :: run, c ≠ chr ':' := by
            rintro c hc rfl
            exact absurd (hrun _ hc) (by simp [colon_char])
          have hwhole : p ++ chr ':' :: (d :: run ++ left) = p ++ Text.ofString ":" ++ (d :: run) ++ left := by
            rw [List.append_assoc, List.append_assoc]
            rfl
          rw [and_iff_right hshort, freeColons_append hcolon, hwhole]
          exact hjoined
        · -- The run is cut, and its second token stays apart.
          refine ⟨fun h => absurd h.1.1 hshort, fun _ => ?_⟩
          obtain ⟨t, tokens₃, rfl, ht⟩ := lex_cut hrun (by omega) htokens''
          exact ⟨_, mergeLoop_two (isValueColon_of_ne (by simp [ht])) tokens₃⟩

/-! ## Comparisons -/

/-- `tokenize` keeps a value of word characters and colons whole exactly when the query is not too
long, no run of the value is too long for a token, and no part of it before a colon is empty or
the name of a field. -/
theorem tokenize_value (case : TextCase) {f value : Text} (hf : f ∈ fieldNames) (hchars : ValueChars value)
    (hword : ∃ c ∈ value, isWordChar c = true) :
    tokenize case (f ++ Text.ofString "=" ++ value) = .ok [⟨.word, f, 0⟩, ⟨.op, Text.ofString "=", f.length⟩,
      ⟨.word, value, f.length + 1⟩] ↔
    (f ++ Text.ofString "=" ++ value).length ≤ maxQueryLength ∧ ShortRuns value ∧ FreeColons case [] value := by
  obtain ⟨hne, hall, hlen, hstrip, hascii, hkey⟩ := fieldNames_word f hf
  by_cases hlength : (f ++ Text.ofString "=" ++ value).length ≤ maxQueryLength
  · have hfield : isFieldName case f = true := by rw [isFieldName, hstrip, case.lower_ascii f hascii, hkey]
    obtain ⟨c, rest, rfl⟩ := List.exists_cons_of_ne_nil (List.ne_nil_of_mem hword.choose_spec.1)
    have hc : c ≠ chr '=' := by
      have hequals : isWordChar (chr '=') = false ∧ chr '=' ≠ chr ':' := by decide
      rintro rfl
      rcases hchars _ List.mem_cons_self with h | h
      · rw [hequals.1] at h
        cases h
      · exact hequals.2 h
    have hequals : ∀ d ∈ (Text.ofString "=" ++ c :: rest).head?, isWordChar d = false := by
      rintro d ⟨⟩
      decide
    obtain ⟨tokens, htokens⟩ := lex_value (f.length + 1) (c :: rest) hchars
    have hlex : lex 0 (f ++ Text.ofString "=" ++ c :: rest) =
        .ok (⟨.word, f, 0⟩ :: ⟨.op, Text.ofString "=", f.length⟩ :: tokens) := by
      rw [List.append_assoc, lex_token (matchToken_word hne (List.all_eq_true.1 hall) (Nat.le_trans hlen (by decide)) hequals),
        show Text.ofString "=" ++ c :: rest = chr '=' :: c :: rest from rfl, lex_token (matchToken_equals hc rest),
        Nat.zero_add, htokens]
      rfl
    have hcolon : isValueColon case ⟨.word, f, 0⟩ ⟨.op, Text.ofString "=", f.length⟩ = false := by
      simp [isValueColon, hfield]
    rw [tokenize, if_neg (by omega), hlex, Except.map, Except.ok.injEq, mergeValueColons, mergeLoop,
      mergeLoop_keep hcolon, and_iff_right hlength]
    have hbase : ∀ t rest', isValueColon case ⟨.op, Text.ofString "=", f.length⟩ t = false ∧
        mergeLoop case [⟨.op, Text.ofString "=", f.length⟩, ⟨.word, f, 0⟩] (t :: rest') =
          ⟨.word, f, 0⟩ :: ⟨.op, Text.ofString "=", f.length⟩ :: mergeLoop case [t] rest' := by
      intro t rest'
      have hkept : isValueColon case ⟨.op, Text.ofString "=", f.length⟩ t = false := by simp [isValueColon]
      exact ⟨hkept, by rw [mergeLoop_keep hkept, mergeLoop_base case _ rest' (le_refl _)]; rfl⟩
    by_cases hfirst : isWordChar c = true
    · -- The first run of word characters is what the colons are glued to.
      obtain ⟨run, left, hsplit, hrun, hleft, htake⟩ := exists_run (c :: rest)
      have hrunNe : run ≠ [] := by
        rw [← htake, List.takeWhile_cons_of_pos hfirst]
        exact List.cons_ne_nil _ _
      have hrunColon : ∀ d ∈ run, d ≠ chr ':' := by
        rintro d hd rfl
        exact absurd (hrun _ hd) (by simp [colon_char])
      have hmatch := matchToken_run hfirst rest
      rw [htake] at hmatch
      obtain ⟨tokens', htokens', rfl⟩ := lex_token_ok hmatch htokens
      rw [(hbase _ _).2, List.cons_inj_right, List.cons_inj_right]
      rw [hsplit, shortRuns_append hrun hleft, freeColons_append hrunColon, List.nil_append]
      by_cases hshort : run.length ≤ maxValueLength
      · rw [List.take_of_length_le hshort, hsplit, List.drop_left] at htokens'
        rw [List.take_of_length_le hshort, and_iff_right hshort]
        have hleftChars : ValueChars left := fun d hd => hchars d (hsplit ▸ List.mem_append_right run hd)
        obtain ⟨hjoins, hapart⟩ := mergeLoop_value case _ run (f.length + 1) left (le_refl _) hrunNe hleftChars hleft tokens' htokens'
        refine ⟨fun h => ?_, hjoins⟩
        by_contra hnot
        obtain ⟨x, y, ys, hxy⟩ := hapart hnot
        rw [hxy] at h
        cases h
      · refine iff_of_false ?_ fun h => hshort h.1.1
        rw [hsplit] at htokens'
        obtain ⟨t, tokens₃, rfl, ht⟩ := lex_cut hrun (by omega) htokens'
        obtain ⟨y, ys, hy⟩ := @mergeLoop_two case ⟨.word, run.take maxValueLength, f.length + 1⟩ t
          (isValueColon_of_ne (by simp [ht])) tokens₃
        simp [hy]
    · -- A colon with no word before it stays an operator.
      obtain rfl : c = chr ':' := (hchars c List.mem_cons_self).resolve_left hfirst
      obtain ⟨tokens', -, rfl⟩ := lex_token_ok (matchToken_colon rest) htokens
      rw [(hbase _ _).2, List.cons_inj_right, List.cons_inj_right]
      refine iff_of_false ?_ fun h => (h.2 [] (by simp)).1 rfl
      rcases tokens' with _ | ⟨t, tokens'⟩
      · simp [mergeLoop_nil]
      · obtain ⟨y, ys, hy⟩ := @mergeLoop_two case ⟨.op, Text.ofString ":", f.length + 1⟩ t (by simp [isValueColon]) tokens'
        simp [hy]
  · rw [tokenize, if_pos (by omega)]
    exact iff_of_false (by rintro ⟨⟩) fun h => hlength h.1

/-- The same for a value that begins with a word character. -/
theorem tokenize_word_value (case : TextCase) {f value : Text} (hf : f ∈ fieldNames) (hchars : ValueChars value)
    (hfirst : ∃ c ∈ value.head?, isWordChar c = true) :
    tokenize case (f ++ Text.ofString "=" ++ value) = .ok [⟨.word, f, 0⟩, ⟨.op, Text.ofString "=", f.length⟩,
      ⟨.word, value, f.length + 1⟩] ↔
    (f ++ Text.ofString "=" ++ value).length ≤ maxQueryLength ∧ ShortRuns value ∧
      ∀ q, q ++ [chr ':'] <+: value → isFieldName case q = false := by
  obtain ⟨c, hc, hword⟩ := hfirst
  obtain ⟨rest, rfl⟩ := List.head?_eq_some_iff.1 hc
  rw [tokenize_value case hf hchars ⟨c, List.mem_cons_self, hword⟩]
  refine and_congr_right fun _ => and_congr_right fun _ => forall₂_congr fun q hq => and_iff_right ?_
  -- The value does not begin with a colon.
  rintro rfl
  obtain ⟨rfl, -⟩ := List.cons_prefix_cons.1 hq
  rw [colon_char] at hword
  cases hword

/-- `timestamp=2026-08-07T14:32` -/
theorem tokenize_word_value_timestamp :
    tokenize asciiCase (Text.ofString "timestamp" ++ Text.ofString "=" ++ Text.ofString "2026-08-07T14:32") =
      .ok [⟨.word, Text.ofString "timestamp", 0⟩, ⟨.op, Text.ofString "=", 9⟩, ⟨.word, Text.ofString "2026-08-07T14:32", 10⟩] := by
  have hall : (Text.ofString "2026-08-07T14:32").all (fun c => isWordChar c || c == chr ':') = true := by decide
  have hchars : ValueChars (Text.ofString "2026-08-07T14:32") := fun c hc => by simpa using List.all_eq_true.1 hall c hc
  have hlen : (Text.ofString "timestamp" ++ Text.ofString "=" ++ Text.ofString "2026-08-07T14:32").length = 26 := by
    simp [Text.ofString]
  refine (tokenize_word_value asciiCase (by decide) hchars ⟨chr '2', rfl, by decide⟩).2 ⟨?_, ?_, ?_⟩
  · rw [hlen, maxQueryLength]
    omega
  · intro t ht
    exact Nat.le_trans (List.takeWhile_prefix _).length_le (Nat.le_trans ht.length_le (by decide))
  · intro q hq
    have hparts : ∀ q ∈ (Text.ofString "2026-08-07T14:32").inits, q ++ [chr ':'] <+: Text.ofString "2026-08-07T14:32" →
        isFieldName asciiCase q = false := by decide
    exact hparts q ((List.mem_inits _ _).2 ((List.prefix_append q _).trans hq)) hq

/-- `endpoint=host:8080` is read as two comparisons that follow each other. -/
theorem field_in_value : tokenize asciiCase (Text.ofString "endpoint=host:8080") =
    .ok [⟨.word, Text.ofString "endpoint", 0⟩, ⟨.op, Text.ofString "=", 8⟩, ⟨.word, Text.ofString "host", 9⟩,
      ⟨.op, Text.ofString ":", 13⟩, ⟨.word, Text.ofString "8080", 14⟩] := by
  with_unfolding_all rfl

end LogAnalytics.Search
