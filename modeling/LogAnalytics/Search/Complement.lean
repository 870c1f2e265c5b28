import Mathlib.Data.List.Find
import Mathlib.Data.List.TakeWhile
import LogAnalytics.Search.Semantics
/-!
# NOT and what it selects

A query and its negation never select a row together. Where a NULL leaves the query unknown,
neither of them does. `NOT (q)` is read as the negation of what `q` is read as.
-/
open LogAnalytics.Lib

namespace LogAnalytics.Search

variable {F : Type}

/-! ## Text before a parenthesis -/

/-- A match with a parenthesis behind the text it leaves. -/
def Match.closed : Match → Match
  | .blank rest => .blank (rest ++ [chr ')'])
  | .token kind value length rest => .token kind value length (rest ++ [chr ')'])

theorem closing_char : Text.isSpace (chr ')') = false ∧ isWordChar (chr ')') = false ∧ chr ')' ≠ chr '"' ∧
    chr ')' ≠ chr '\'' := by decide

theorem takeWhile_closed {p : CodePoint → Bool} (hp : p (chr ')') = false) (text : Text) :
    (text ++ [chr ')']).takeWhile p = text.takeWhile p := by
  rw [List.takeWhile_append]
  split
  · next h => simp [hp, (List.takeWhile_prefix p).eq_of_length h]
  · rfl

theorem dropWhile_closed {p : CodePoint → Bool} (hp : p (chr ')') = false) (text : Text) :
    (text ++ [chr ')']).dropWhile p = text.dropWhile p ++ [chr ')'] := by
  rw [List.dropWhile_append]
  split
  · next h => simp [hp, List.isEmpty_iff.1 h]
  · rfl

theorem find_operator_closed (text : Text) :
    operatorPatterns.find? (·.isPrefixOf (text ++ [chr ')'])) = operatorPatterns.find? (·.isPrefixOf text) := by
  have hclosing : ∀ op ∈ operatorPatterns, chr ')' ∉ op := by decide
  refine List.find?_congr fun op hop => ?_
  rw [Bool.eq_iff_iff, List.isPrefixOf_iff_prefix, List.isPrefixOf_iff_prefix, List.prefix_concat_iff]
  refine or_iff_right ?_
  rintro rfl
  exact hclosing _ hop (List.mem_append_right _ List.mem_cons_self)

theorem drop_takeWhile (p : CodePoint → Bool) (text : Text) : text.drop (text.takeWhile p).length = text.dropWhile p := by
  have h := @List.drop_left _ (text.takeWhile p) (text.dropWhile p)
  rwa [List.takeWhile_append_dropWhile] at h

theorem matchQuoted_closed {quote : CodePoint} (hquote : chr ')' ≠ quote) (text : Text) :
    matchQuoted quote (text ++ [chr ')']) = (matchQuoted quote text).map fun x => (x.1, x.2 ++ [chr ')']) := by
  cases text with
  | nil => rw [List.nil_append, matchQuoted, matchQuoted, if_neg hquote]; rfl
  | cons c rest =>
    rw [List.cons_append, matchQuoted, matchQuoted]
    by_cases hc : c = quote
    · rw [if_pos hc, if_pos hc]
      dsimp only
      generalize hp : (fun d : CodePoint => decide (d ≠ quote)) = p
      have hclosing : p (chr ')') = true := by rw [← hp]; simpa using hquote
      rw [drop_takeWhile, drop_takeWhile, List.dropWhile_append]
      cases hdrop : rest.dropWhile p with
      | nil => simp [hclosing]
      | cons d left =>
        have htake : (rest ++ [chr ')']).takeWhile p = rest.takeWhile p := by
          rw [List.takeWhile_append, if_neg]
          intro hlength
          have hall := (List.takeWhile_prefix p).eq_of_length hlength
          rw [List.dropWhile_eq_nil_iff.2 (List.takeWhile_eq_self_iff.1 hall)] at hdrop
          cases hdrop
        rw [htake]
        simp only [List.isEmpty_cons, Bool.false_eq_true, if_false, List.cons_append]
        split <;> rfl
    · rw [if_neg hc, if_neg hc]
      rfl

theorem matchToken_closed {text : Text} (hne : text ≠ []) :
    matchToken (text ++ [chr ')']) = (matchToken text).map Match.closed := by
  obtain ⟨hspace, hword, hdouble, hsingle⟩ := closing_char
  cases text with
  | nil => exact absurd rfl hne
  | cons c rest =>
    have hquoted : (matchQuoted (chr '"') (c :: rest ++ [chr ')'])).or (matchQuoted (chr '\'') (c :: rest ++ [chr ')'])) =
        ((matchQuoted (chr '"') (c :: rest)).or (matchQuoted (chr '\'') (c :: rest))).map
          fun x => (x.1, x.2 ++ [chr ')']) := by
      rw [matchQuoted_closed hdouble, matchQuoted_closed hsingle]
      cases matchQuoted (chr '"') (c :: rest) <;> rfl
    have hfind := find_operator_closed (c :: rest)
    have htake := takeWhile_closed hword (c :: rest)
    rw [List.cons_append] at hquoted hfind htake ⊢
    rw [matchToken, matchToken]
    -- One case for each alternative of the pattern, in its order.
    by_cases hc : Text.isSpace c = true
    · rw [if_pos hc, if_pos hc, dropWhile_closed hspace]
      rfl
    rw [if_neg hc, if_neg hc]
    by_cases hc : c = chr '('
    · rw [if_pos hc, if_pos hc]
      rfl
    rw [if_neg hc, if_neg hc]
    by_cases hc : c = chr ')'
    · rw [if_pos hc, if_pos hc]
      rfl
    rw [if_neg hc, if_neg hc, hfind]
    cases hop : operatorPatterns.find? (·.isPrefixOf (c :: rest)) with
    | some op =>
      have hlong : op.length ≤ (c :: rest).length :=
        (List.isPrefixOf_iff_prefix.1 (by simpa using List.find?_some hop)).length_le
      dsimp only [Option.map_some, Match.closed]
      rw [← List.cons_append, List.drop_append_of_le_length hlong]
    | none =>
      dsimp only
      by_cases hc : c = chr ','
      · rw [if_pos hc, if_pos hc]
        rfl
      rw [if_neg hc, if_neg hc, hquoted]
      cases (matchQuoted (chr '"') (c :: rest)).or (matchQuoted (chr '\'') (c :: rest)) with
      | some x => rfl
      | none =>
        dsimp only [Option.map_none]
        rw [htake]
        split
        · rfl
        · have hlong : (((c :: rest).takeWhile isWordChar).take maxValueLength).length ≤ (c :: rest).length :=
            Nat.le_trans (List.length_take_le' _ _) (List.takeWhile_prefix _).length_le
          dsimp only [Option.map_some, Match.closed]
          rw [← List.cons_append, List.drop_append_of_le_length hlong]

/-! ## Tokens before a parenthesis -/

/-- A token further on in the text. -/
def Token.moved (k : Nat) (t : Token) : Token := { t with position := t.position + k }

/-- The tokens of a text, if it stands further on and before a parenthesis. -/
theorem lex_closed (k position : Nat) (text : Text) : ∀ tokens, lex position text = .ok tokens → ∃ q,
    lex (position + k) (text ++ [chr ')']) = .ok (tokens.map (·.moved k) ++ [⟨.rparen, [chr ')'], q⟩]) := by
  induction position, text using lex.induct with
  | case1 position =>
    intro tokens h
    rw [lex_nil] at h
    cases h
    refine ⟨position + k, ?_⟩
    have hmatch : matchToken [chr ')'] = some (.token .rparen [chr ')'] 1 []) := rfl
    rw [List.nil_append, lex_token hmatch, lex_nil]
    rfl
  | case2 position c rest hm =>
    intro tokens h
    rw [lex_none hm] at h
    cases h
  | case3 position c rest left hm hlt ih =>
    intro tokens h
    rw [lex_blank hm] at h
    -- The match is the same before the parenthesis, which is left with the rest.
    have hclosed := matchToken_closed (List.cons_ne_nil c rest)
    rw [hm] at hclosed
    obtain ⟨q, hq⟩ := ih tokens h
    refine ⟨q, ?_⟩
    rw [lex_blank hclosed, ← hq]
    congr 1
    simp only [List.length_append, List.length_singleton]
    omega
  | case4 position c rest kind value length left hm _ ih =>
    intro tokens h
    obtain ⟨tokens', hleft, rfl⟩ := lex_token_ok hm h
    have hclosed := matchToken_closed (List.cons_ne_nil c rest)
    rw [hm] at hclosed
    obtain ⟨q, hq⟩ := ih tokens' hleft
    refine ⟨q, ?_⟩
    rw [lex_token hclosed, Nat.add_right_comm, hq]
    rfl

theorem isValueColon_moved (case : TextCase) (k : Nat) (previous t : Token) :
    isValueColon case (previous.moved k) (t.moved k) = isValueColon case previous t := by
  have hposition : (t.moved k).position = (previous.moved k).position + (previous.moved k).value.length ↔
      t.position = previous.position + previous.value.length := by
    simp only [Token.moved]
    omega
  rw [isValueColon, isValueColon, decide_eq_decide.2 hposition]
  rfl

/-- The merging of tokens between others that are no words. -/
theorem mergeLoop_within (case : TextCase) (k : Nat) {closing : Token} (hclosing : closing.kind = .rparen) {opening : Token}
    (hopening : opening.kind = .lparen) (base : List Token) (merged tokens : List Token) :
    mergeLoop case (merged.map (·.moved k) ++ opening :: base) (tokens.map (·.moved k) ++ [closing]) =
      (opening :: base).reverse ++ (mergeLoop case merged tokens).map (·.moved k) ++ [closing] := by
  have hkept : ∀ previous, isValueColon case previous closing = false := fun previous =>
    isValueColon_of_ne (by rw [hclosing]; simp)
  induction merged, tokens using mergeLoop.induct case with
  | case1 merged =>
    rw [mergeLoop_nil]
    cases merged with
    | nil => simp [mergeLoop_keep (hkept _), mergeLoop_nil]
    | cons previous merged => simp [mergeLoop_keep (hkept _), mergeLoop_nil]
  | case2 token rest ih =>
    have hopened : isValueColon case opening (token.moved k) = false := by simp [isValueColon, hopening]
    rw [mergeLoop, ← ih]
    exact mergeLoop_keep hopened _ _
  | case3 previous merged token hcolon =>
    rw [mergeLoop_colon hcolon (by simp), mergeLoop_nil]
    rw [← isValueColon_moved case k] at hcolon
    simp only [List.map_cons, List.map_nil, List.cons_append, List.nil_append]
    rw [mergeLoop_colon hcolon (by simp [hclosing]), mergeLoop_keep (hkept _), mergeLoop_nil]
    simp [Token.moved]
  | case4 previous merged token hcolon =>
    rw [Bool.not_eq_true] at hcolon
    rw [mergeLoop_keep hcolon, mergeLoop_nil]
    rw [← isValueColon_moved case k] at hcolon
    simp only [List.map_cons, List.map_nil, List.cons_append, List.nil_append]
    rw [mergeLoop_keep hcolon, mergeLoop_keep (hkept _), mergeLoop_nil]
    simp
  | case5 previous merged token following rest hcolon hword ih =>
    rw [mergeLoop_word hcolon hword.1 hword.2, ← ih]
    rw [← isValueColon_moved case k] at hcolon
    have hposition : (following.moved k).position = (token.moved k).position + 1 := by
      simp only [Token.moved, hword.2]
      omega
    have hkind : (following.moved k).kind = .word := hword.1
    exact mergeLoop_word hcolon hkind hposition _ _
  | case6 previous merged token following rest hcolon hword ih =>
    have hfollowing : ¬ ((following.moved k).kind = .word ∧ (following.moved k).position = (token.moved k).position + 1) := by
      simp only [Token.moved]
      rintro ⟨hkind, hposition⟩
      exact hword ⟨hkind, by omega⟩
    rw [mergeLoop_colon hcolon (by rintro f ⟨⟩; exact hword), ← ih]
    rw [← isValueColon_moved case k] at hcolon
    exact mergeLoop_colon hcolon (by rintro f ⟨⟩; exact hfollowing) _
  | case7 previous merged token following rest hcolon ih =>
    rw [Bool.not_eq_true] at hcolon
    rw [mergeLoop_keep hcolon, ← ih]
    rw [← isValueColon_moved case k] at hcolon
    exact mergeLoop_keep hcolon _ _

/-! ## Reading a negation -/

theorem Derives.moved {b : Builtins F} {l : Level} {ts : List Token} {ns : List (Node F)} {d n : Nat} (k : Nat)
    (h : Derives b l ts ns d n) : Derives b l (ts.map (·.moved k)) ns d n := by
  have hvalues : ∀ {vs : List Token} {values : List Text}, Values vs values → Values (vs.map (·.moved k)) values := by
    intro vs values h
    induction h with
    | one value short => exact .one value short
    | cons value short sep _ ih => exact .cons value short sep ih
  induction h with
  | not keyword _ ih => exact .not keyword ih
  | group left right _ ih =>
    rw [List.map_cons, List.map_append]
    exact .group left right ih
  | comparison field notNot isOp resolves value few builds =>
    exact .comparison field notNot isOp resolves (hvalues value) few builds
  | freeText value notNot short => exact .freeText value notNot short
  | one _ ih => exact .one ih
  | and _ keyword _ ihTerm ihRest =>
    rw [List.map_append, List.map_cons]
    exact .and ihTerm keyword ihRest
  | juxtaposed _ noKeyword _ ihTerm ihRest =>
    rw [List.map_append]
    refine .juxtaposed ihTerm ?_ ihRest
    intro t ht
    rw [List.head?_map] at ht
    obtain ⟨t', ht', rfl⟩ := Option.map_eq_some_iff.1 ht
    exact noKeyword t' ht'
  | conj _ ih => exact .conj ih
  | or _ keyword _ ihTerms ihRest =>
    rw [List.map_append, List.map_cons]
    exact .or ihTerms keyword ihRest

/-- What stands before a closing parenthesis, or at the end, is derived in one way. -/
theorem Derives.unique {b : Builtins F} {ts us rest rest' : List Token} {ns ms : List (Node F)} {d d' k k' : Nat}
    (h : Derives b .disj ts ns d k) (h' : Derives b .disj us ms d' k') (hrest : Follows b .disj rest)
    (hrest' : Follows b .disj rest') (heq : ts ++ rest = us ++ rest') (hd : d ≤ maxDepth) (hd' : d' ≤ maxDepth)
    (hk : k ≤ maxNodes) (hk' : k' ≤ maxNodes) : rest = rest' ∧ ns = ms := by
  let fuel := 4 * ts.length + 4 * us.length + 2
  obtain ⟨n, tail, t, rfl, hand, hor⟩ := h.accepted fuel 0 rest 0 hrest (by omega) (by omega) (by omega)
  obtain ⟨n', tail', t', rfl, hand', hor'⟩ := h'.accepted fuel 0 rest' 0 hrest' (by omega) (by omega) (by omega)
  -- The parser reads both from the same tokens.
  rw [heq, hand', Except.ok.injEq, Prod.mk.injEq] at hand
  obtain ⟨rfl, rfl⟩ := hand
  rw [hor', Except.ok.injEq, Prod.mk.injEq] at hor
  obtain ⟨rfl, hor⟩ := hor
  exact ⟨(congrArg ParserState.tokens hor).symm, rfl⟩

/-- A negation in parentheses is read as one, if it is within the limits. -/
theorem parse_not_group {b : Builtins F} {ts : List Token} {ns : List (Node F)} {d k : Nat} (h : Derives b .disj ts ns d k)
    (hd : d ≤ maxDepth) (hk : k ≤ maxNodes) {t l r : Token} (hnot : t.isNot b = true) (hl : l.kind = .lparen)
    (hr : r.kind = .rparen) (hfield : Fielded b (ts ++ [r])) {m : Node F}
    (hm : parse b (t :: l :: (ts ++ [r])) = .ok (some m)) : m = .not (collapse .or ns) := by
  have hkeyword : ∀ keyword, l.isKeyword b keyword = false := by
    intro keyword
    cases hword : l.isKeyword b keyword with
    | false => rfl
    | true =>
      rw [Token.isKeyword_word hword] at hl
      cases hl
  have hheadNot : (isKeyword b "NOT" (t :: l :: (ts ++ [r])) || isKeyword b "-" (t :: l :: (ts ++ [r]))) = true := hnot
  have hheadParen : (isKeyword b "NOT" (l :: (ts ++ [r])) || isKeyword b "-" (l :: (ts ++ [r]))) = false := by
    rw [isKeyword_head rfl, isKeyword_head rfl, hkeyword, hkeyword]
    rfl
  obtain ⟨f, hf⟩ : ∃ f, parseFuel (t :: l :: (ts ++ [r])) = f + 4 := ⟨_, rfl⟩
  -- The whole is one term, and nothing is left behind it.
  have hparse : ∀ x, parseTerm b (f + 2) 0 ⟨t :: l :: (ts ++ [r]), 0⟩ = x → (∀ e, x ≠ .error e) ∧
      ∀ n nodes, x = .ok (n, ⟨[], nodes⟩) → m = n := by
    rintro x rfl
    unfold parse at hm
    dsimp only at hm
    rw [hf, parseOr, if_neg (Nat.not_lt_zero _), parseAnd] at hm
    refine ⟨fun e he => ?_, fun n nodes hn => ?_⟩
    · simp only [bind, Except.bind, he] at hm
      cases hm
    · have hand : andLoop b (f + 2) 0 ⟨[], nodes⟩ = .ok ([], ⟨[], nodes⟩) := andLoop_stops (Nat.succ_pos _) (by simp [Follows])
      have hor : orLoop b (f + 3) 0 ⟨[], nodes⟩ = .ok ([], ⟨[], nodes⟩) := orLoop_stops (Nat.succ_pos _) (by simp [Follows])
      simp only [bind, Except.bind, hn, hand, hor] at hm
      cases hm
      rfl
  have hterm : parseTerm b (f + 2) 0 ⟨t :: l :: (ts ++ [r]), 0⟩ =
      (parseTerm b (f + 1) 0 ⟨l :: (ts ++ [r]), 1⟩).map fun x => (.not x.1, x.2) := by
    rw [parseTerm, if_pos hheadNot, List.tail_cons, @countNode_ok _ 0 0 (by simp [maxNodes])]
    simp only [bind, Except.bind, Nat.zero_add]
    cases parseTerm b (f + 1) 0 ⟨l :: (ts ++ [r]), 1⟩ <;> rfl
  cases hinner : parseOr b f 1 ⟨ts ++ [r], 1⟩ with
  | error e =>
    have hgroup : parseTerm b (f + 1) 0 ⟨l :: (ts ++ [r]), 1⟩ = .error e := by
      rw [parseTerm, hheadParen, if_neg Bool.false_ne_true]
      simp only [if_pos hl, bind, Except.bind, hinner]
    rw [hgroup] at hterm
    exact absurd rfl ((hparse _ hterm).1 e)
  | ok x =>
    obtain ⟨n, s⟩ := x
    obtain ⟨ms, rfl, ⟨us, d', k', hus, hms, hk', hmax, hdepth⟩, hfollows⟩ := (descent_sound f 1 ⟨ts ++ [r], 1⟩ hfield).or n s hinner
    dsimp only at hus hk'
    -- What the parser took inside the parentheses can only be the derivation given.
    obtain ⟨hrest, rfl⟩ := h.unique hms (by rintro t' ⟨⟩; exact hr) hfollows hus hd (by omega) hk (by omega)
    have hgroup : parseTerm b (f + 1) 0 ⟨l :: (ts ++ [r]), 1⟩ = .ok (collapse .or ns, ⟨[], s.nodes⟩) := by
      rw [parseTerm, hheadParen, if_neg Bool.false_ne_true]
      simp only [if_pos hl, bind, Except.bind, hinner, ← hrest, if_pos hr]
    rw [hgroup] at hterm
    exact (hparse _ hterm).2 _ _ rfl

/-- `NOT (q)` -/
def negated (query : Text) : Text := Text.ofString "NOT (" ++ query ++ [chr ')']

theorem strip_negated (query : Text) : (negated query).strip = negated query := by
  refine Text.strip_eq_self ?_ ?_
  · rintro c ⟨⟩
    decide
  · rw [negated, List.getLast?_concat]
    rintro c ⟨⟩
    decide

/-- The tokens of `NOT (q)` are those of `q`, further on. -/
theorem tokenize_negated {case : TextCase} {query : Text} {tokens tokens' : List Token} (h : tokenize case query = .ok tokens)
    (h' : tokenize case (negated query) = .ok tokens') : ∃ k q, tokens' = ⟨.word, Text.ofString "NOT", 0⟩ ::
      ⟨.lparen, [chr '('], 4⟩ :: (tokens.map (·.moved k) ++ [⟨.rparen, [chr ')'], q⟩]) := by
  have hopen : Lexes 0 (Text.ofString "NOT (") [⟨.word, Text.ofString "NOT", 0⟩, ⟨.lparen, [chr '('], 4⟩] :=
    (Spells.keyword (by simp) : Spells case 0 (Text.ofString "NOT" ++ Text.ofString " ") _).lexes.append
      (Spells.punctuation (by simp) : Spells case _ [chr '('] [⟨.lparen, [chr '('], _⟩]).lexes
  obtain ⟨-, lexed, hlexed, rfl⟩ := tokenize_ok_iff.1 h
  obtain ⟨-, lexed', hlexed', rfl⟩ := tokenize_ok_iff.1 h'
  obtain ⟨q, hq⟩ := lex_closed (Text.ofString "NOT (").length 0 query lexed hlexed
  rw [negated, List.append_assoc, hopen, hq] at hlexed'
  cases hlexed'
  refine ⟨(Text.ofString "NOT (").length, q, ?_⟩
  have hparen : isValueColon case ⟨.word, Text.ofString "NOT", 0⟩ ⟨.lparen, [chr '('], 4⟩ = false := by
    simp [isValueColon]
  rw [mergeValueColons]
  dsimp only [List.cons_append, List.nil_append]
  rw [mergeLoop, mergeLoop_keep hparen]
  exact mergeLoop_within case _ rfl rfl [⟨.word, Text.ofString "NOT", 0⟩] [] lexed

/-- Where a query and its negation are accepted, the tree of the one is the negation of the other's. -/
theorem tree_negated {b : Builtins F} {text : Text} {n m : Node F} (hn : (SearchInput.query text).tree b = .ok (some n))
    (hm : (SearchInput.query (negated text.strip)).tree b = .ok (some m)) : m = .not n := by
  unfold SearchInput.tree at hn hm
  dsimp only at hn hm
  rw [strip_negated] at hm
  split at hn
  · cases hn
  cases htokens : tokenize b.case text.strip with
  | error e => rw [htokens] at hn; cases hn
  | ok tokens =>
    rw [htokens] at hn
    rw [if_neg (by simp [negated])] at hm
    cases htokens' : tokenize b.case (negated text.strip) with
    | error e => rw [htokens'] at hm; cases hm
    | ok tokens' =>
      rw [htokens'] at hm
      obtain ⟨k, q, rfl⟩ := tokenize_negated htokens htokens'
      have hfield := Fielded.of_lexical (b := b) (tokenize_lexical htokens')
      obtain ⟨ns, d, j, rfl, hd, hdepth, hnodes⟩ := Derives.of_parse (.of_lexical (tokenize_lexical htokens)) hn
      refine parse_not_group (hd.moved k) hdepth hnodes ?_ rfl rfl hfield.tail.tail hm
      rw [Token.isNot, keyword_upper b (by simp), Bool.true_or]

/-! ## The comparisons of a query -/

/-- Something is bound to the comparison. -/
def Comparison.Bound (c : Comparison F) : Prop := c.values ≠ [] ∨ c.value ≠ none

theorem buildComparison_bound {b : Builtins F} {column : Column} {operator : Text} {values : List Text} {c : Comparison F}
    (h : buildComparison b column operator values = .ok c) : c.Bound := by
  unfold buildComparison at h
  cases hop : Operator.ofText operator with
  | none => rw [hop] at h; cases h
  | some op =>
    rw [hop] at h
    rcases values with _ | ⟨raw, _ | ⟨raw', rest⟩⟩
    · cases h
    · dsimp only at h
      split at h
      · cases h
        exact .inr (by simp)
      · cases hv : coerce b column raw with
        | error e => rw [hv] at h; cases h
        | ok v =>
          rw [hv] at h
          cases h
          exact .inr (by simp)
    · dsimp only at h
      split at h
      · rw [coerceAll] at h
        obtain ⟨values, hvalues, h⟩ := Lib.bind_ok.1 h
        obtain ⟨v, -, hvalues⟩ := Lib.bind_ok.1 hvalues
        obtain ⟨vs, -, hvalues⟩ := Lib.bind_ok.1 hvalues
        cases hvalues
        cases h
        exact .inl (by simp)
      · cases h

theorem atoms_formulas {ns : List (Node F)} {c : Comparison F} (h : c ∈ Formula.atomsAll (formulas ns)) :
    ∃ n ∈ ns, c ∈ n.formula.atoms := by
  induction ns with
  | nil => cases h
  | cons n ns ih =>
    rw [formulas, Formula.atomsAll] at h
    rcases List.mem_append.1 h with h | h
    · exact ⟨n, List.mem_cons_self, h⟩
    · obtain ⟨n', hn', hc⟩ := ih h
      exact ⟨n', List.mem_cons_of_mem _ hn', hc⟩

theorem atoms_collapse {op : Connective} {ns : List (Node F)} {c : Comparison F} (h : c ∈ (collapse op ns).formula.atoms) :
    ∃ n ∈ ns, c ∈ n.formula.atoms := by
  rcases ns with _ | ⟨n, _ | ⟨n', ns⟩⟩
  · cases op <;> simp [collapse, Node.formula, formulas, Formula.atoms, Formula.atomsAll] at h
  · exact ⟨n, List.mem_cons_self, h⟩
  · cases op <;> exact atoms_formulas h

theorem Derives.bound {b : Builtins F} {l : Level} {ts : List Token} {ns : List (Node F)} {d k : Nat}
    (h : Derives b l ts ns d k) : ∀ n ∈ ns, ∀ c ∈ n.formula.atoms, c.Bound := by
  have hcollapse : ∀ {op : Connective} {ns : List (Node F)}, (∀ n ∈ ns, ∀ c ∈ n.formula.atoms, c.Bound) →
      ∀ c ∈ (collapse op ns).formula.atoms, c.Bound := by
    intro op ns h c hc
    obtain ⟨n, hn, hc⟩ := atoms_collapse hc
    exact h n hn c hc
  induction h with
  | not _ _ ih => simpa [Node.formula, Formula.atoms] using ih
  | group _ _ _ ih => exact List.forall_mem_singleton.2 (hcollapse ih)
  | comparison _ _ _ _ _ _ builds => simpa [Node.formula, Formula.atoms] using buildComparison_bound builds
  | freeText => simp [Node.formula, Formula.atoms, Formula.atomsAll, Comparison.Bound]
  | one _ ih => exact ih
  | and _ _ _ ihTerm ihRest => exact List.forall_mem_cons.2 ⟨List.forall_mem_singleton.1 ihTerm, ihRest⟩
  | juxtaposed _ _ _ ihTerm ihRest => exact List.forall_mem_cons.2 ⟨List.forall_mem_singleton.1 ihTerm, ihRest⟩
  | conj _ ih => exact List.forall_mem_singleton.2 (hcollapse ih)
  | or _ _ _ ihTerms ihRest => exact List.forall_mem_cons.2 ⟨hcollapse ihTerms, ihRest⟩

theorem tree_bound {b : Builtins F} {text : Text} {n : Node F} (h : (SearchInput.query text).tree b = .ok (some n)) :
    ∀ c ∈ n.formula.atoms, c.Bound := by
  unfold SearchInput.tree at h
  dsimp only at h
  split at h
  · cases h
  cases htokens : tokenize b.case text.strip with
  | error e => rw [htokens] at h; cases h
  | ok tokens =>
    rw [htokens] at h
    obtain ⟨ns, d, k, rfl, hd, -⟩ := Derives.of_parse (.of_lexical (tokenize_lexical htokens)) h
    intro c hc
    obtain ⟨n, hn, hc⟩ := atoms_collapse hc
    exact hd.bound n hn c hc

theorem Comparison.Bound.truth {c : Comparison F} (h : c.Bound) (db : Database F) {row : Cells F}
    (hcell : row c.column ≠ none) : c.truth db row ≠ none := by
  obtain ⟨cell, hcell⟩ := Option.ne_none_iff_exists'.1 hcell
  rw [Comparison.truth, hcell]
  dsimp only
  by_cases hvalues : c.values = []
  · rw [if_neg (by simpa using hvalues), Ne, Option.map_eq_none_iff]
    exact h.resolve_left (by simpa using hvalues)
  · rw [if_pos hvalues]
    simp

/-! ## The rows of a negation -/

theorem selected_not (db : Database F) (row : Cells F) (n : Node F) :
    (Node.not n).selected db row ↔ n.truth db row = some false := by
  have hnot : ∀ t : Truth, t.not = some true ↔ t = some false := by decide
  rw [Node.selected, Node.truth, Node.formula, Formula.eval]
  exact hnot _

/-- Of a query and its negation at most one selects a row. Exactly one does if what the query says
is the same however its comparisons with a NULL are read, and so if it compares none. -/
theorem not_complements (b : Builtins F) (db : Database F) (row : Cells F) {text : Text} {n m : Node F}
    (hn : (SearchInput.query text).tree b = .ok (some n)) (hm : (SearchInput.query (negated text.strip)).tree b = .ok (some m)) :
    ¬ (n.selected db row ∧ m.selected db row) ∧
    ((n.selected db row ∨ m.selected db row) ↔ ∀ x y, Formula.Reads (Comparison.truth db row) n.formula x →
      Formula.Reads (Comparison.truth db row) n.formula y → x = y) ∧
    ((∀ c ∈ n.formula.atoms, row c.column ≠ none) → (n.selected db row ∨ m.selected db row)) := by
  have htruth : ∀ t : Truth, (t = some true ∨ t = some false) ↔ t ≠ none := by decide
  rw [tree_negated hn hm, selected_not, Node.selected, htruth]
  refine ⟨?_, Formula.eval_known_iff n.formula, ?_⟩
  · rintro ⟨htrue, hfalse⟩
    rw [htrue] at hfalse
    cases hfalse
  · intro hcells
    exact Formula.eval_known n.formula fun c hc => (tree_bound hn c hc).truth db (hcells c hc)

/-- `service=payments` -/
def paymentsQuery : Text := Text.ofString "service=payments"

/-- `service=payments` with the trees of the query and its negation. -/
def paymentsNode : Node Unit := .comparison ⟨.service, .eq, some (.text (Text.ofString "payments")), []⟩

theorem paymentsQuery_tree : (SearchInput.query paymentsQuery).tree textBuiltins = .ok (some paymentsNode) ∧
    (SearchInput.query (negated paymentsQuery.strip)).tree textBuiltins = .ok (some (.not paymentsNode)) := by
  refine ⟨?_, ?_⟩ <;> with_unfolding_all rfl

theorem not_complements_payments : ∃ n m : Node Unit,
    (SearchInput.query paymentsQuery).tree textBuiltins = .ok (some n) ∧
    (SearchInput.query (negated paymentsQuery.strip)).tree textBuiltins = .ok (some m) ∧
    ¬ (n.selected textDatabase (serviceCells (some "orders")) ∧ m.selected textDatabase (serviceCells (some "orders"))) ∧
    (n.selected textDatabase (serviceCells (some "orders")) ∨ m.selected textDatabase (serviceCells (some "orders"))) := by
  obtain ⟨hboth, -, hone⟩ := not_complements textBuiltins textDatabase (serviceCells (some "orders")) paymentsQuery_tree.1
    paymentsQuery_tree.2
  refine ⟨_, _, paymentsQuery_tree.1, paymentsQuery_tree.2, hboth, hone ?_⟩
  simp [paymentsNode, Node.formula, Formula.atoms, serviceCells]

/-- An event without a service is found neither by `service=payments` nor by its negation. -/
theorem neither_selected : ∃ n m : Node Unit,
    (SearchInput.query paymentsQuery).tree textBuiltins = .ok (some n) ∧
    (SearchInput.query (negated paymentsQuery.strip)).tree textBuiltins = .ok (some m) ∧
    ¬ n.selected textDatabase (serviceCells none) ∧ ¬ m.selected textDatabase (serviceCells none) :=
  ⟨_, _, paymentsQuery_tree.1, paymentsQuery_tree.2, by decide, by decide⟩

end LogAnalytics.Search
