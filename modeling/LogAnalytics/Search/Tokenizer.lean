import LogAnalytics.Search.Syntax
/-!
# The tokenizer

`tokenize` reads a query with one regular expression whose alternatives are tried in order,
then glues colons back into the values they belong to.
-/

namespace LogAnalytics.Search

/-- `MAX_QUERY_LENGTH` -/
def maxQueryLength : Nat := 4096

/-- `MAX_VALUE_LENGTH` -/
def maxValueLength : Nat := 512

/-- The character of an ASCII one. -/
def chr (c : Char) : CodePoint := Fin.ofNat 0x110000 c.toNat

/-- A character of the `word` alternative. -/
def isWordChar (c : CodePoint) : Bool :=
  !Text.isSpace c && !(Text.ofString "()=:<>!~,\"'").contains c

/-- The operators of the pattern, in its order. -/
def operatorPatterns : List Text := [">=", "<=", "!=", "<>", "==", "=", ":", ">", "<", "~"].map Text.ofString

/-- The quoted alternative with this quote: the text between the quotes, and what follows. -/
def matchQuoted (quote : CodePoint) : Text → Option (Text × Text)
  | [] => none
  | c :: rest =>
    if c = quote then
      let body := rest.takeWhile (· ≠ quote)
      match rest.drop body.length with
      | _ :: rest => if body.length ≤ maxValueLength then some (body, rest) else none
      | [] => none
    else none

/-- What the pattern matches at the start of a text. -/
inductive Match where
  | blank (rest : Text)
  | token (kind : TokenKind) (value : Text) (length : Nat) (rest : Text)

/-- `_TOKEN_RE.match`; a quoted value is given without its quotes. -/
def matchToken (text : Text) : Option Match :=
  match text with
  | [] => none
  | c :: rest =>
    if Text.isSpace c then some (.blank (rest.dropWhile Text.isSpace))
    else if c = chr '(' then some (.token .lparen [c] 1 rest)
    else if c = chr ')' then some (.token .rparen [c] 1 rest)
    else
      match operatorPatterns.find? (·.isPrefixOf text) with
      | some op => some (.token .op op op.length (text.drop op.length))
      | none =>
        if c = chr ',' then some (.token .comma [c] 1 rest)
        else
          match (matchQuoted (chr '"') text).or (matchQuoted (chr '\'') text) with
          | some (value, rest) => some (.token .quoted value (value.length + 2) rest)
          | none =>
            let word := (text.takeWhile isWordChar).take maxValueLength
            if word = [] then none else some (.token .word word word.length (text.drop word.length))

/-- The text a match leaves. -/
def Match.rest : Match → Text
  | .blank rest => rest
  | .token _ _ _ rest => rest

theorem matchQuoted_length {quote : CodePoint} {text value rest : Text} (h : matchQuoted quote text = some (value, rest)) :
    rest.length < text.length := by
  cases text with
  | nil => cases h
  | cons c t =>
    rw [matchQuoted] at h
    split at h
    · dsimp only at h
      split at h
      · next hd =>
        split at h
        · cases h
          have hl := congrArg List.length hd
          rw [List.length_drop, List.length_cons] at hl
          rw [List.length_cons]
          omega
        · cases h
      · cases h
    · cases h

theorem operatorPatterns_length : ∀ op ∈ operatorPatterns, 0 < op.length := by decide

/-- A match is never empty. -/
theorem matchToken_length {text : Text} {m : Match} (h : matchToken text = some m) : m.rest.length < text.length := by
  cases text with
  | nil => cases h
  | cons c rest =>
    rw [matchToken] at h
    split at h
    · cases h
      exact Nat.lt_succ_of_le (List.dropWhile_suffix _).length_le
    · split at h
      · cases h; exact Nat.lt_succ_self _
      · split at h
        · cases h; exact Nat.lt_succ_self _
        · split at h
          · next op hop =>
            cases h
            have hpos := operatorPatterns_length op (List.mem_of_find?_eq_some hop)
            rw [Match.rest, List.length_drop, List.length_cons]
            omega
          · split at h
            · cases h; exact Nat.lt_succ_self _
            · split at h
              · next hq =>
                cases h
                rcases Option.or_eq_some_iff.1 hq with hq | ⟨-, hq⟩ <;> exact matchQuoted_length hq
              · dsimp only at h
                split at h
                · cases h
                · next hw =>
                  cases h
                  have := List.length_pos_iff.2 hw
                  rw [Match.rest, List.length_drop, List.length_cons]
                  omega

section

-- the equations of `lex` are found without the branches of a match
attribute [local irreducible] matchToken

/-- The loop of `tokenize`. -/
def lex (position : Nat) (text : Text) : Except SearchError (List Token) :=
  match text with
  | [] => .ok []
  | c :: rest =>
    match h : matchToken (c :: rest) with
    | none => .error (.syntaxError (.unexpectedCharacter c position))
    | some (.blank left) =>
      have : left.length < (c :: rest).length := matchToken_length h
      lex (position + ((c :: rest).length - left.length)) left
    | some (.token kind value length left) =>
      have : left.length < (c :: rest).length := matchToken_length h
      (lex (position + length) left).map (⟨kind, value, position⟩ :: ·)
termination_by text.length
decreasing_by all_goals assumption

theorem lex_nil (position : Nat) : lex position [] = .ok [] := by rw [lex]

end

theorem lex_none {position : Nat} {c : CodePoint} {rest : Text} (h : matchToken (c :: rest) = none) :
    lex position (c :: rest) = .error (.syntaxError (.unexpectedCharacter c position)) := by
  rw [lex]
  split
  · rfl
  · next h' => rw [h] at h'; cases h'
  · next h' => rw [h] at h'; cases h'

theorem lex_blank {position : Nat} {text left : Text} (h : matchToken text = some (.blank left)) :
    lex position text = lex (position + (text.length - left.length)) left := by
  cases text with
  | nil => cases h
  | cons c rest =>
    rw [lex]
    split
    · next h' => rw [h] at h'; cases h'
    · next h' => rw [h] at h'; cases h'; rfl
    · next h' => rw [h] at h'; cases h'

theorem lex_token {position length : Nat} {text value left : Text} {kind : TokenKind}
    (h : matchToken text = some (.token kind value length left)) :
    lex position text = (lex (position + length) left).map (⟨kind, value, position⟩ :: ·) := by
  cases text with
  | nil => cases h
  | cons c rest =>
    rw [lex]
    split
    · next h' => rw [h] at h'; cases h'
    · next h' => rw [h] at h'; cases h'
    · next h' => rw [h] at h'; cases h'; rfl

/-- The tokens of a text that begins with one. -/
theorem lex_token_ok {position length : Nat} {text value left : Text} {kind : TokenKind} {tokens : List Token}
    (h : matchToken text = some (.token kind value length left)) (hlex : lex position text = .ok tokens) :
    ∃ rest, lex (position + length) left = .ok rest ∧ tokens = ⟨kind, value, position⟩ :: rest := by
  rw [lex_token h] at hlex
  cases hleft : lex (position + length) left with
  | error e =>
    rw [hleft] at hlex
    cases hlex
  | ok rest =>
    rw [hleft] at hlex
    cases hlex
    exact ⟨rest, rfl, rfl⟩

/-- `_is_field_name` -/
def isFieldName (case : TextCase) (word : Text) : Bool := (Column.ofKey (case.lower word.strip)).isSome

/-- A colon behind a word that is no field name and that it touches. -/
def isValueColon (case : TextCase) (previous token : Token) : Bool :=
  token.kind = .op && token.value = Text.ofString ":" && previous.kind = .word && !isFieldName case previous.value &&
    token.position = previous.position + previous.value.length

/-- The loop of `_merge_value_colons`; `merged` has its last token first. -/
def mergeLoop (case : TextCase) : (merged tokens : List Token) → List Token
  | merged, [] => merged.reverse
  | [], token :: rest => mergeLoop case [token] rest
  | previous :: merged, [token] =>
    if isValueColon case previous token then
      (⟨.word, previous.value ++ Text.ofString ":", previous.position⟩ :: merged).reverse
    else (token :: previous :: merged).reverse
  | previous :: merged, token :: following :: rest =>
    if isValueColon case previous token then
      if following.kind = .word ∧ following.position = token.position + 1 then
        mergeLoop case
          (⟨.word, previous.value ++ Text.ofString ":" ++ following.value, previous.position⟩ :: merged) rest
      else
        mergeLoop case (⟨.word, previous.value ++ Text.ofString ":", previous.position⟩ :: merged) (following :: rest)
    else mergeLoop case (token :: previous :: merged) (following :: rest)

theorem mergeLoop_nil (case : TextCase) (merged : List Token) : mergeLoop case merged [] = merged.reverse := by
  rw [mergeLoop]

/-- A token that is kept as it is. -/
theorem mergeLoop_keep {case : TextCase} {previous token : Token} (h : isValueColon case previous token = false)
    (merged rest : List Token) :
    mergeLoop case (previous :: merged) (token :: rest) = mergeLoop case (token :: previous :: merged) rest := by
  cases rest with
  | nil => rw [mergeLoop_nil, mergeLoop, h, if_neg Bool.false_ne_true]
  | cons following rest => rw [mergeLoop, h, if_neg Bool.false_ne_true]

/-- A colon glued to the word before it. -/
theorem mergeLoop_colon {case : TextCase} {previous token : Token} (h : isValueColon case previous token = true)
    {rest : List Token} (hrest : ∀ f ∈ rest.head?, ¬ (f.kind = .word ∧ f.position = token.position + 1))
    (merged : List Token) :
    mergeLoop case (previous :: merged) (token :: rest) =
      mergeLoop case (⟨.word, previous.value ++ Text.ofString ":", previous.position⟩ :: merged) rest := by
  cases rest with
  | nil => rw [mergeLoop_nil, mergeLoop, if_pos h]
  | cons following rest => rw [mergeLoop, if_pos h, if_neg (hrest following rfl)]

/-- A colon glued to the words on both its sides. -/
theorem mergeLoop_word {case : TextCase} {previous token following : Token} (h : isValueColon case previous token = true)
    (hkind : following.kind = .word) (hposition : following.position = token.position + 1) (merged rest : List Token) :
    mergeLoop case (previous :: merged) (token :: following :: rest) =
      mergeLoop case (⟨.word, previous.value ++ Text.ofString ":" ++ following.value, previous.position⟩ :: merged)
        rest := by
  rw [mergeLoop, if_pos h, if_pos ⟨hkind, hposition⟩]

/-- `_merge_value_colons` -/
def mergeValueColons (case : TextCase) (tokens : List Token) : List Token := mergeLoop case [] tokens

def tokenize (case : TextCase) (text : Text) : Except SearchError (List Token) :=
  if maxQueryLength < text.length then .error (.syntaxError .queryTooLong)
  else (lex 0 text).map (mergeValueColons case)

theorem tokenize_ok_iff {case : TextCase} {text : Text} {tokens : List Token} : tokenize case text = .ok tokens ↔
    text.length ≤ maxQueryLength ∧ ∃ lexed, lex 0 text = .ok lexed ∧ mergeValueColons case lexed = tokens := by
  unfold tokenize
  split
  · next hlong => exact iff_of_false nofun fun h => Nat.not_lt.2 h.1 hlong
  · next hshort =>
    rw [and_iff_right (Nat.le_of_not_lt hshort)]
    cases lex 0 text with
    | error e => exact iff_of_false nofun fun ⟨_, h, _⟩ => nomatch h
    | ok lexed => simp [Except.map]

/-! ## What every token has -/

section

variable {P : Token → Prop}

/-- What holds of every match, holds of every token. -/
theorem lex_forall (hmatch : ∀ {text value left : Text} {kind : TokenKind} {length : Nat},
      matchToken text = some (.token kind value length left) → ∀ position, P ⟨kind, value, position⟩) (position : Nat)
    (text : Text) : ∀ tokens, lex position text = .ok tokens → ∀ t ∈ tokens, P t := by
  induction position, text using lex.induct with
  | case1 position =>
    intro tokens h
    rw [lex_nil] at h
    cases h
    exact List.forall_mem_nil P
  | case2 position c rest hm =>
    intro tokens h
    rw [lex_none hm] at h
    cases h
  | case3 position c rest left hm _ ih =>
    rw [lex_blank hm]
    exact ih
  | case4 position c rest kind value length left hm _ ih =>
    intro tokens h
    obtain ⟨tokens', hleft, rfl⟩ := lex_token_ok hm h
    exact List.forall_mem_cons.2 ⟨hmatch hm position, ih tokens' hleft⟩

theorem isValueColon_word {case : TextCase} {previous token : Token} (h : isValueColon case previous token = true) :
    previous.kind = .word := by
  simp only [isValueColon, Bool.and_eq_true, decide_eq_true_eq] at h
  exact h.1.1.2

/-- What holds of a word with a colon behind it, and of two words with a colon between them, holds
of all tokens after the merging. -/
theorem mergeLoop_forall (case : TextCase)
    (hcolon : ∀ t : Token, t.kind = .word → P t → P ⟨.word, t.value ++ Text.ofString ":", t.position⟩)
    (hword : ∀ t u : Token, t.kind = .word → u.kind = .word → P t → P u →
      P ⟨.word, t.value ++ Text.ofString ":" ++ u.value, t.position⟩) (merged tokens : List Token) :
    (∀ t ∈ merged, P t) → (∀ t ∈ tokens, P t) → ∀ t ∈ mergeLoop case merged tokens, P t := by
  induction merged, tokens using mergeLoop.induct case with
  | case1 merged => exact fun h _ => by simpa [mergeLoop] using h
  | case2 token rest ih =>
    intro _ h
    rw [mergeLoop]
    exact ih (by simpa using h token List.mem_cons_self) fun t ht => h t (List.mem_cons_of_mem _ ht)
  | case3 previous merged token hglue =>
    intro h _
    rw [mergeLoop, if_pos hglue]
    simp only [List.mem_reverse, List.forall_mem_cons] at h ⊢
    exact ⟨hcolon previous (isValueColon_word hglue) h.1, h.2⟩
  | case4 previous merged token hglue =>
    intro h h'
    rw [mergeLoop, if_neg hglue]
    simp only [List.mem_reverse, List.forall_mem_cons] at h h' ⊢
    exact ⟨h'.1, h⟩
  | case5 previous merged token following rest hglue hfollows ih =>
    intro h h'
    rw [mergeLoop, if_pos hglue, if_pos hfollows]
    simp only [List.forall_mem_cons] at h h'
    exact ih (List.forall_mem_cons.2
      ⟨hword previous following (isValueColon_word hglue) hfollows.1 h.1 h'.2.1, h.2⟩) h'.2.2
  | case6 previous merged token following rest hglue hfollows ih =>
    intro h h'
    rw [mergeLoop, if_pos hglue, if_neg hfollows]
    simp only [List.forall_mem_cons] at h h'
    exact ih (List.forall_mem_cons.2 ⟨hcolon previous (isValueColon_word hglue) h.1, h.2⟩) (List.forall_mem_cons.2 h'.2)
  | case7 previous merged token following rest hglue ih =>
    intro h h'
    rw [mergeLoop, if_neg hglue]
    simp only [List.forall_mem_cons] at h h'
    exact ih (List.forall_mem_cons.2 ⟨h'.1, List.forall_mem_cons.2 h⟩) (List.forall_mem_cons.2 h'.2)

theorem tokenize_forall {case : TextCase}
    (hmatch : ∀ {text value left : Text} {kind : TokenKind} {length : Nat},
      matchToken text = some (.token kind value length left) → ∀ position, P ⟨kind, value, position⟩)
    (hcolon : ∀ t : Token, t.kind = .word → P t → P ⟨.word, t.value ++ Text.ofString ":", t.position⟩)
    (hword : ∀ t u : Token, t.kind = .word → u.kind = .word → P t → P u →
      P ⟨.word, t.value ++ Text.ofString ":" ++ u.value, t.position⟩)
    {text : Text} {tokens : List Token} (h : tokenize case text = .ok tokens) : ∀ t ∈ tokens, P t := by
  obtain ⟨-, lexed, hlex, rfl⟩ := tokenize_ok_iff.1 h
  exact mergeLoop_forall case hcolon hword [] lexed (by simp) (lex_forall hmatch 0 text lexed hlex)

end

end LogAnalytics.Search
