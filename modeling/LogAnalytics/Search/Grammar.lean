import LogAnalytics.Lib.Loops
import LogAnalytics.Search.Parser
/-!
# The grammar

What the parser accepts, as a grammar: `Derives` derives a token list together with the trees
it stands for, the depth of its parentheses and the nodes counted for it. The parser and the
grammar agree in both directions within the limits.
-/

namespace LogAnalytics.Search

variable {F : Type}

/-- `NOT`, or a lone `-`. -/
def Token.isNot (b : Builtins F) (t : Token) : Bool := t.isKeyword b "NOT" || t.isKeyword b "-"

def Token.isAnd (b : Builtins F) (t : Token) : Bool := t.isKeyword b "AND"

def Token.isOr (b : Builtins F) (t : Token) : Bool := t.isKeyword b "OR"

/-- `value ("," value)*` -/
inductive Values : List Token → List Text → Prop
  | one {t : Token} (value : t.isValue = true) (short : t.value.length ≤ maxValueLength) : Values [t] [t.value]
  | cons {t comma : Token} {ts : List Token} {vs : List Text} (value : t.isValue = true)
      (short : t.value.length ≤ maxValueLength) (sep : comma.kind = .comma) (rest : Values ts vs) :
      Values (t :: comma :: ts) (t.value :: vs)

/-- The levels of an expression: a term, terms connected by AND, and these connected by OR. -/
inductive Level where
  | term | conj | disj
  deriving DecidableEq

/-- The token lists of a level, with their trees, depth and number of nodes. A term behind
another one without a keyword does not begin with AND or OR. -/
inductive Derives (b : Builtins F) : Level → List Token → List (Node F) → (depth nodes : Nat) → Prop
  | not {t : Token} {ts : List Token} {n : Node F} {d k : Nat} (keyword : t.isNot b = true)
      (child : Derives b .term ts [n] d k) : Derives b .term (t :: ts) [.not n] d (k + 1)
  | group {l r : Token} {ts : List Token} {ns : List (Node F)} {d k : Nat} (left : l.kind = .lparen)
      (right : r.kind = .rparen) (inner : Derives b .disj ts ns d k) :
      Derives b .term (l :: (ts ++ [r])) [collapse .or ns] (d + 1) k
  | comparison {t op : Token} {vs : List Token} {values : List Text} {column : Column} {c : Comparison F}
      (field : t.isValue = true) (notNot : t.isNot b = false) (isOp : op.kind = .op)
      (resolves : resolveColumn b t.value = .ok column) (value : Values vs values) (few : values.length ≤ maxInValues)
      (builds : buildComparison b column op.value values = .ok c) :
      Derives b .term (t :: op :: vs) [.comparison c] 0 1
  | freeText {t : Token} (value : t.isValue = true) (notNot : t.isNot b = false)
      (short : t.value.length ≤ maxValueLength) : Derives b .term [t] [.freeText t.value] 0 1
  | one {ts : List Token} {n : Node F} {d k : Nat} (term : Derives b .term ts [n] d k) : Derives b .conj ts [n] d k
  | and {t : Token} {ts us : List Token} {n : Node F} {ns : List (Node F)} {d d' k k' : Nat}
      (term : Derives b .term ts [n] d k) (keyword : t.isAnd b = true) (rest : Derives b .conj us ns d' k') :
      Derives b .conj (ts ++ t :: us) (n :: ns) (max d d') (k + k')
  | juxtaposed {ts us : List Token} {n : Node F} {ns : List (Node F)} {d d' k k' : Nat}
      (term : Derives b .term ts [n] d k) (noKeyword : ∀ t ∈ us.head?, t.isAnd b = false ∧ t.isOr b = false)
      (rest : Derives b .conj us ns d' k') : Derives b .conj (ts ++ us) (n :: ns) (max d d') (k + k')
  | conj {ts : List Token} {ns : List (Node F)} {d k : Nat} (terms : Derives b .conj ts ns d k) :
      Derives b .disj ts [collapse .and ns] d k
  | or {t : Token} {ts us : List Token} {ns ms : List (Node F)} {d d' k k' : Nat} (terms : Derives b .conj ts ns d k)
      (keyword : t.isOr b = true) (rest : Derives b .disj us ms d' k') :
      Derives b .disj (ts ++ t :: us) (collapse .and ns :: ms) (max d d') (k + k')

/-! ## Tokens -/

theorem Token.isKeyword_word {b : Builtins F} {keyword : String} {t : Token} (h : t.isKeyword b keyword = true) :
    t.kind = .word := by
  rw [Token.isKeyword, Bool.and_eq_true, decide_eq_true_eq] at h
  exact h.1

theorem Token.isKeyword_ne {b : Builtins F} {k k' : String} (hne : Text.ofString k ≠ Text.ofString k') {t : Token}
    (h : t.isKeyword b k = true) : t.isKeyword b k' = false := by
  rw [Token.isKeyword, Bool.and_eq_true, decide_eq_true_eq, decide_eq_true_eq] at h
  rw [Token.isKeyword, h.2, Bool.and_eq_false_iff]
  exact .inr (by simpa using hne)

theorem Token.isNot_word {b : Builtins F} {t : Token} (h : t.isNot b = true) : t.kind = .word := by
  rw [Token.isNot, Bool.or_eq_true] at h
  rcases h with h | h <;> exact isKeyword_word h

theorem isKeyword_head {b : Builtins F} {keyword : String} {tokens : List Token} {t : Token} (h : t ∈ tokens.head?) :
    isKeyword b keyword tokens = t.isKeyword b keyword := by
  rw [isKeyword, Option.mem_def.1 h]
  rfl

/-- A derived list begins with a value or a parenthesis. -/
theorem Derives.head {b : Builtins F} {l : Level} {ts : List Token} {ns : List (Node F)} {d k : Nat}
    (h : Derives b l ts ns d k) : ∃ t rest, ts = t :: rest ∧ (t.isValue = true ∨ t.kind = .lparen) := by
  induction h with
  | not keyword _ _ => exact ⟨_, _, rfl, .inl (by simp [Token.isValue, Token.isNot_word keyword])⟩
  | group left _ _ _ => exact ⟨_, _, rfl, .inr left⟩
  | comparison field => exact ⟨_, _, rfl, .inl field⟩
  | freeText value => exact ⟨_, _, rfl, .inl value⟩
  | one _ ih => exact ih
  | and _ _ _ ih _ =>
    obtain ⟨t, rest, rfl, ht⟩ := ih
    exact ⟨t, _, rfl, ht⟩
  | juxtaposed _ _ _ ih _ =>
    obtain ⟨t, rest, rfl, ht⟩ := ih
    exact ⟨t, _, rfl, ht⟩
  | conj _ ih => exact ih
  | or _ _ _ ih _ =>
    obtain ⟨t, rest, rfl, ht⟩ := ih
    exact ⟨t, _, rfl, ht⟩

theorem Derives.length_pos {b : Builtins F} {l : Level} {ts : List Token} {ns : List (Node F)} {d k : Nat}
    (h : Derives b l ts ns d k) : 0 < ts.length := by
  obtain ⟨t, rest, rfl, -⟩ := h.head
  exact Nat.succ_pos _

/-! ## The parser accepts the grammar -/

/-- What can come behind a derived list in a larger one. -/
def Follows (b : Builtins F) (l : Level) (rest : List Token) : Prop :=
  ∀ t ∈ rest.head?, match l with
    | .term => t.kind ≠ .op ∧ t.kind ≠ .comma
    | .conj => t.kind = .rparen ∨ t.isOr b = true
    | .disj => t.kind = .rparen

theorem Follows.term {b : Builtins F} {rest : List Token} (h : Follows b .conj rest) : Follows b .term rest := by
  intro t ht
  rcases h t ht with h | h
  · simp [h]
  · simp [Token.isKeyword_word h]

theorem Follows.conj {b : Builtins F} {rest : List Token} (h : Follows b .disj rest) : Follows b .conj rest :=
  fun t ht => .inl (h t ht)

theorem Derives.follows {b : Builtins F} {l : Level} {ts : List Token} {ns : List (Node F)} {d k : Nat}
    (h : Derives b l ts ns d k) (rest : List Token) : Follows b .term (ts ++ rest) := by
  obtain ⟨t, us, rfl, ht⟩ := h.head
  rintro t' ⟨⟩
  rcases ht with ht | ht
  · rw [Token.isValue, Bool.or_eq_true, decide_eq_true_eq, decide_eq_true_eq] at ht
    rcases ht with ht | ht <;> simp [ht]
  · simp [ht]

theorem Values.parses {vs : List Token} {values : List Text} (h : Values vs values) {rest : List Token}
    (hrest : ∀ t ∈ rest.head?, t.kind ≠ .comma) : ∀ count, count + values.length ≤ maxInValues →
      parseValues count (vs ++ rest) = .ok (values, rest) := by
  induction h with
  | @one t value short =>
    intro count hcount
    simp only [List.length_singleton] at hcount
    cases rest with
    | nil =>
      rw [List.append_nil, parseValues, if_neg (by simp [value]), if_neg (by omega), if_neg (by omega)]
    | cons following rest =>
      rw [List.singleton_append, parseValues, if_neg (by simp [value]), if_neg (by omega), if_neg (by omega),
        if_neg (hrest following rfl)]
  | @cons t comma ts vs value short sep _ ih =>
    intro count hcount
    simp only [List.length_cons] at hcount
    rw [List.cons_append, List.cons_append, parseValues, if_neg (by simp [value]), if_neg (by omega),
      if_neg (by omega), if_pos sep, ih (count + 1) (by omega)]
    rfl

theorem countNode_ok {tokens : List Token} {nodes k : Nat} (h : nodes + (k + 1) ≤ maxNodes) :
    countNode ⟨tokens, nodes⟩ = .ok ⟨tokens, nodes + 1⟩ := by
  unfold countNode
  rw [if_neg (by dsimp only; omega)]

theorem countNode_eq {s s' : ParserState} (h : countNode s = .ok s') : s'.tokens = s.tokens ∧ s'.nodes = s.nodes + 1 := by
  unfold countNode at h
  split at h
  · cases h
  · cases h
    exact ⟨rfl, rfl⟩

/-- What the parser makes of a derived list with others behind it. -/
def Accepted (b : Builtins F) (fuel depth : Nat) (s s' : ParserState) : Level → List (Node F) → Prop
  | .term, ns => ∃ n, ns = [n] ∧ parseTerm b fuel depth s = .ok (n, s')
  | .conj, ns => ∃ n tail t, ns = n :: tail ∧ parseTerm b fuel depth s = .ok (n, t) ∧
      andLoop b fuel depth t = .ok (tail, s')
  | .disj, ns => ∃ n tail t, ns = n :: tail ∧ parseAnd b (fuel + 1) depth s = .ok (n, t) ∧
      orLoop b (fuel + 1) depth t = .ok (tail, s')

/-- A term at the end of a conjunction. -/
theorem andLoop_stops {b : Builtins F} {fuel depth : Nat} {s : ParserState} (hfuel : 0 < fuel)
    (h : Follows b .conj s.tokens) : andLoop b fuel depth s = .ok ([], s) := by
  obtain ⟨f, rfl⟩ := Nat.exists_eq_add_of_lt hfuel
  rw [Nat.zero_add, andLoop, if_pos]
  rcases htokens : s.tokens with _ | ⟨t, rest⟩
  · rfl
  · rw [htokens] at h
    rw [Bool.or_eq_true]
    rcases h t rfl with h | h
    · exact .inl (by simp [h])
    · exact .inr h

/-- A further term, behind AND or alone. -/
theorem andLoop_more {b : Builtins F} {fuel depth : Nat} {t : Token} {rest : List Token} {nodes : Nat}
    (hkind : t.kind ≠ .rparen) (hor : t.isOr b = false) :
    andLoop b (fuel + 1) depth ⟨t :: rest, nodes⟩ = (do
      let (n, s) ← parseTerm b fuel depth ⟨if t.isAnd b then rest else t :: rest, nodes⟩
      let (ns, s) ← andLoop b fuel depth s
      .ok (n :: ns, s)) := by
  have hor' : isKeyword b "OR" (t :: rest) = false := hor
  rw [andLoop, if_neg (by simp [hkind, hor'])]
  have hand : isKeyword b "AND" (t :: rest) = t.isAnd b := rfl
  simp only [hand]
  split <;> rfl

theorem orLoop_stops {b : Builtins F} {fuel depth : Nat} {s : ParserState} (hfuel : 0 < fuel)
    (h : Follows b .disj s.tokens) : orLoop b fuel depth s = .ok ([], s) := by
  obtain ⟨f, rfl⟩ := Nat.exists_eq_add_of_lt hfuel
  rw [Nat.zero_add, orLoop, if_neg]
  intro hkw
  obtain ⟨t, rest, ht, hkw⟩ := isKeyword_cons hkw
  rw [ht] at h
  have hkind := h t rfl
  rw [Token.isKeyword_word hkw] at hkind
  cases hkind

theorem Derives.accepted {b : Builtins F} {l : Level} {ts : List Token} {ns : List (Node F)} {d k : Nat}
    (h : Derives b l ts ns d k) : ∀ fuel depth rest nodes, Follows b l rest → 4 * ts.length + 2 ≤ fuel →
      depth + d ≤ maxDepth → nodes + k ≤ maxNodes →
      Accepted b fuel depth ⟨ts ++ rest, nodes⟩ ⟨rest, nodes + k⟩ l ns := by
  induction h with
  | @not t ts n d k keyword child ih =>
    intro fuel depth rest nodes hrest hfuel hdepth hnodes
    obtain ⟨f, rfl⟩ := Nat.exists_eq_add_of_lt (show 0 < fuel by omega)
    rw [List.length_cons] at hfuel
    obtain ⟨n', hn, hparse⟩ := ih f depth rest (nodes + 1) hrest (by omega) hdepth (by omega)
    cases hn
    refine ⟨_, rfl, ?_⟩
    have hkw : (isKeyword b "NOT" (t :: (ts ++ rest)) || isKeyword b "-" (t :: (ts ++ rest))) = true := keyword
    rw [Nat.zero_add, parseTerm, List.cons_append, if_pos hkw, List.tail_cons, countNode_ok hnodes]
    simp only [bind, Except.bind, hparse]
    rw [Nat.add_assoc, Nat.add_comm 1 k]
  | @group l r ts ns d k left right inner ih =>
    intro fuel depth rest nodes hrest hfuel hdepth hnodes
    simp only [List.length_cons, List.length_append] at hfuel
    obtain ⟨f, rfl⟩ := Nat.exists_eq_add_of_lt (show 2 < fuel by omega)
    obtain ⟨n, tail, t, rfl, hand, hor⟩ := ih f (depth + 1) (r :: rest) nodes (by rintro t ⟨⟩; exact right)
      (by omega) (by omega) hnodes
    refine ⟨_, rfl, ?_⟩
    have hkw : ∀ keyword, isKeyword b keyword (l :: (ts ++ [r] ++ rest)) = false := by
      intro keyword
      cases hk : l.isKeyword b keyword with
      | false => exact hk
      | true =>
        rw [Token.isKeyword_word hk] at left
        cases left
    have happ : ts ++ [r] ++ rest = ts ++ r :: rest := by simp
    rw [show 2 + f + 1 = (f + 1 + 1) + 1 by omega, parseTerm, List.cons_append, hkw, hkw, if_neg (by simp)]
    dsimp only
    rw [if_pos left, happ, parseOr, if_neg (by omega)]
    simp only [bind, Except.bind, hand, hor, right, if_true]
  | @comparison t op vs values column c field notNot isOp resolves value few builds =>
    intro fuel depth rest nodes hrest hfuel hdepth hnodes
    obtain ⟨f, rfl⟩ := Nat.exists_eq_add_of_lt (show 0 < fuel by omega)
    refine ⟨_, rfl, ?_⟩
    have hkw : (isKeyword b "NOT" (t :: op :: (vs ++ rest)) || isKeyword b "-" (t :: op :: (vs ++ rest))) = false := notNot
    have hkind : t.kind ≠ .lparen := by
      rw [Token.isValue, Bool.or_eq_true, decide_eq_true_eq, decide_eq_true_eq] at field
      rcases field with h | h <;> simp [h]
    rw [Nat.zero_add, parseTerm, List.cons_append, List.cons_append, hkw, if_neg (by simp)]
    dsimp only
    rw [if_neg hkind, parseComparison]
    dsimp only
    rw [countNode_ok (k := 0) hnodes]
    simp only [bind, Except.bind, isOp, if_true, resolves, value.parses (fun t ht => (hrest t ht).2) 0 (by omega), builds]
  | @freeText t value notNot short =>
    intro fuel depth rest nodes hrest hfuel hdepth hnodes
    obtain ⟨f, rfl⟩ := Nat.exists_eq_add_of_lt (show 0 < fuel by omega)
    refine ⟨_, rfl, ?_⟩
    have hkw : (isKeyword b "NOT" (t :: rest) || isKeyword b "-" (t :: rest)) = false := notNot
    have hkind : t.kind ≠ .lparen := by
      rw [Token.isValue, Bool.or_eq_true, decide_eq_true_eq, decide_eq_true_eq] at value
      rcases value with h | h <;> simp [h]
    have hfree : ∀ s : ParserState, parseFreeText (F := F) t s = .ok (.freeText t.value, s) := by
      intro s
      rw [parseFreeText, if_neg (by simp [value]), if_neg (by omega)]
    rw [Nat.zero_add, parseTerm, List.singleton_append, hkw, if_neg (by simp)]
    dsimp only
    rw [if_neg hkind, parseComparison]
    dsimp only
    rw [countNode_ok (k := 0) hnodes]
    cases rest with
    | nil => exact hfree _
    | cons op rest =>
      simp only [bind, Except.bind, (hrest op rfl).1, if_false, hfree]
  | @one ts n d k term ih =>
    intro fuel depth rest nodes hrest hfuel hdepth hnodes
    obtain ⟨n', hn, hparse⟩ := ih fuel depth rest nodes hrest.term hfuel hdepth hnodes
    cases hn
    exact ⟨n, [], _, rfl, hparse, andLoop_stops (by omega) hrest⟩
  | @and t ts us n ns d d' k k' term keyword rest' ihTerm ihRest =>
    intro fuel depth rest nodes hrest hfuel hdepth hnodes
    simp only [List.length_append, List.length_cons] at hfuel
    obtain ⟨f, rfl⟩ := Nat.exists_eq_add_of_lt (show 0 < fuel by omega)
    have hword := Token.isKeyword_word keyword
    obtain ⟨n', hn, hparse⟩ := ihTerm (0 + f + 1) depth (t :: (us ++ rest)) nodes (by rintro t' ⟨⟩; simp [hword]) (by omega)
      (by omega) (by omega)
    cases hn
    obtain ⟨m, tail, s, rfl, hm, htail⟩ := ihRest f depth rest (nodes + k) hrest (by omega) (by omega) (by omega)
    rw [List.append_assoc, List.cons_append]
    refine ⟨n, m :: tail, _, rfl, hparse, ?_⟩
    rw [Nat.zero_add, andLoop_more (by simp [hword]) (Token.isKeyword_ne (by decide) keyword), if_pos keyword]
    simp only [bind, Except.bind, hm, htail, Nat.add_assoc]
  | @juxtaposed ts us n ns d d' k k' term noKeyword rest' ihTerm ihRest =>
    intro fuel depth rest nodes hrest hfuel hdepth hnodes
    simp only [List.length_append] at hfuel
    have hpos := term.length_pos
    obtain ⟨f, rfl⟩ := Nat.exists_eq_add_of_lt (show 0 < fuel by omega)
    obtain ⟨n', hn, hparse⟩ := ihTerm (0 + f + 1) depth (us ++ rest) nodes (rest'.follows rest) (by omega)
      (by omega) (by omega)
    cases hn
    obtain ⟨m, tail, s, rfl, hm, htail⟩ := ihRest f depth rest (nodes + k) hrest (by omega) (by omega) (by omega)
    rw [List.append_assoc]
    refine ⟨n, m :: tail, _, rfl, hparse, ?_⟩
    obtain ⟨t, us, rfl, ht⟩ := rest'.head
    obtain ⟨hand, hor⟩ := noKeyword t rfl
    have hkind : t.kind ≠ .rparen := by
      rw [Token.isValue, Bool.or_eq_true, decide_eq_true_eq, decide_eq_true_eq] at ht
      rcases ht with (h | h) | h <;> simp [h]
    rw [Nat.zero_add, List.cons_append, andLoop_more hkind hor, hand, if_neg (by simp), ← List.cons_append]
    simp only [bind, Except.bind, hm, htail, Nat.add_assoc]
  | @conj ts ns d k terms ih =>
    intro fuel depth rest nodes hrest hfuel hdepth hnodes
    obtain ⟨n, tail, s, rfl, hterm, hloop⟩ := ih fuel depth rest nodes hrest.conj hfuel hdepth hnodes
    refine ⟨_, [], _, rfl, ?_, orLoop_stops (Nat.succ_pos _) hrest⟩
    rw [parseAnd]
    simp only [bind, Except.bind, hterm, hloop]
  | @or t ts us ns ms d d' k k' terms keyword rest' ihTerms ihRest =>
    intro fuel depth rest nodes hrest hfuel hdepth hnodes
    simp only [List.length_append, List.length_cons] at hfuel
    obtain ⟨f, rfl⟩ := Nat.exists_eq_add_of_lt (show 0 < fuel by omega)
    obtain ⟨n, tail, s, rfl, hterm, hloop⟩ := ihTerms (0 + f + 1) depth (t :: (us ++ rest)) nodes
      (by rintro t' ⟨⟩; exact .inr keyword) (by omega) (by omega) (by omega)
    obtain ⟨m, ms', s', rfl, hand, hor⟩ := ihRest f depth rest (nodes + k) hrest (by omega) (by omega) (by omega)
    rw [List.append_assoc, List.cons_append]
    refine ⟨_, m :: ms', ⟨t :: (us ++ rest), nodes + k⟩, rfl, ?_, ?_⟩
    · rw [parseAnd]
      simp only [bind, Except.bind, hterm, hloop]
    · have hkw : isKeyword b "OR" (t :: (us ++ rest)) = true := keyword
      rw [orLoop, if_pos hkw]
      simp only [bind, Except.bind, List.tail_cons, Nat.zero_add, hand, hor, Nat.add_assoc]

/-- The parser accepts every expression within the limits, and gives its tree. -/
theorem Derives.parse {b : Builtins F} {ts : List Token} {ns : List (Node F)} {d k : Nat}
    (h : Derives b .disj ts ns d k) (hdepth : d ≤ maxDepth) (hnodes : k ≤ maxNodes) :
    parse b ts = .ok (some (collapse .or ns)) := by
  obtain ⟨t, rest, rfl, -⟩ := h.head
  obtain ⟨n, tail, s, rfl, hand, hor⟩ := h.accepted (4 * (t :: rest).length + 2) 0 [] 0 (by simp [Follows])
    (le_refl _) (by omega) (by omega)
  rw [List.append_nil] at hand
  unfold Search.parse
  dsimp only
  rw [show parseFuel (t :: rest) = (4 * (t :: rest).length + 2 + 1) + 1 from rfl, parseOr, if_neg (by omega)]
  simp only [bind, Except.bind, hand, hor]

/-! ## What the parser accepts is in the grammar -/

/-- Only a value can name a column. -/
def Fielded (b : Builtins F) (tokens : List Token) : Prop :=
  ∀ t ∈ tokens, ∀ column, resolveColumn b t.value = .ok column → t.isValue = true

theorem Fielded.of_append {b : Builtins F} {ts us : List Token} (h : Fielded b (ts ++ us)) : Fielded b us :=
  fun t ht => h t (List.mem_append_right ts ht)

theorem Fielded.tail {b : Builtins F} {t : Token} {us : List Token} (h : Fielded b (t :: us)) : Fielded b us :=
  fun u hu => h u (List.mem_cons_of_mem t hu)

/-- From `s` to `s'` the parser reads a list that derives `ns`, within the limits. -/
def Reads (b : Builtins F) (l : Level) (depth : Nat) (s s' : ParserState) (ns : List (Node F)) : Prop :=
  ∃ ts d k, s.tokens = ts ++ s'.tokens ∧ Derives b l ts ns d k ∧ s'.nodes = s.nodes + k ∧ s'.nodes ≤ maxNodes ∧
    depth + d ≤ maxDepth

theorem Values.of_parseValues (count : Nat) (tokens : List Token) : ∀ values rest,
    parseValues count tokens = .ok (values, rest) →
      ∃ vs, tokens = vs ++ rest ∧ Values vs values ∧ count + values.length ≤ maxInValues := by
  induction count, tokens using parseValues.induct with
  | case1 count => rintro values rest ⟨⟩
  | case2 count t h => rw [parseValues, if_pos h]; rintro values rest ⟨⟩
  | case3 count t h h' => rw [parseValues, if_neg h, if_pos h']; rintro values rest ⟨⟩
  | case4 count t h h' h'' => rw [parseValues, if_neg h, if_neg h', if_pos h'']; rintro values rest ⟨⟩
  | case5 count t h h' h'' =>
    rw [parseValues, if_neg h, if_neg h', if_neg h'']
    rintro values rest ⟨⟩
    exact ⟨[t], rfl, .one (by simpa using h) (by omega), by simp only [List.length_singleton]; omega⟩
  | case6 count t following rest h => rw [parseValues, if_pos h]; rintro values rest ⟨⟩
  | case7 count t following rest h h' => rw [parseValues, if_neg h, if_pos h']; rintro values rest ⟨⟩
  | case8 count t following rest h h' h'' => rw [parseValues, if_neg h, if_neg h', if_pos h'']; rintro values rest ⟨⟩
  | case9 count t following rest h h' h'' hcomma ih =>
    rw [parseValues, if_neg h, if_neg h', if_neg h'', if_pos hcomma]
    cases hr : parseValues (count + 1) rest with
    | error e => rintro values rest ⟨⟩
    | ok x =>
      obtain ⟨values, left⟩ := x
      obtain ⟨vs, hvs, hvalues, hcount⟩ := ih values left hr
      rintro values' left' ⟨⟩
      refine ⟨t :: following :: vs, by rw [hvs]; rfl, .cons (by simpa using h) (by omega) hcomma hvalues, ?_⟩
      simp only [List.length_cons]
      omega
  | case10 count t following rest h h' h'' hcomma =>
    rw [parseValues, if_neg h, if_neg h', if_neg h'', if_neg hcomma]
    rintro values rest ⟨⟩
    exact ⟨[t], rfl, .one (by simpa using h) (by omega), by simp only [List.length_singleton]; omega⟩

/-- A term that is no group and has no NOT. -/
theorem parseComparison_reads {b : Builtins F} {depth : Nat} {s s' : ParserState} {n : Node F}
    (hfield : Fielded b s.tokens) (hnot : s.tokens.head?.all (fun t => !t.isNot b) = true) (hdepth : depth ≤ maxDepth)
    (h : parseComparison b s = .ok (n, s')) : Reads b .term depth s s' [n] := by
  unfold parseComparison at h
  rcases ht : s.tokens with _ | ⟨t, rest⟩
  · rw [ht] at h
    cases h
  · rw [ht] at h hfield hnot
    have hnot' : t.isNot b = false := by simpa using hnot
    dsimp only at h
    unfold countNode at h
    split at h
    · cases h
    · next hcount =>
      dsimp only at hcount
      have hfree : ∀ s₁ : ParserState, s₁.tokens = rest → s₁.nodes = s.nodes + 1 →
          parseFreeText t s₁ = .ok (n, s') → Reads b .term depth s s' [n] := by
        intro s₁ hs₁ hnodes hf
        unfold parseFreeText at hf
        split at hf
        · cases hf
        · next hvalue =>
          split at hf
          · cases hf
          · next hshort =>
            cases hf
            exact ⟨[t], 0, 1, by rw [ht, hs₁]; rfl, .freeText (by simpa using hvalue) hnot' (by omega), hnodes, by omega,
              by omega⟩
      rcases rest with _ | ⟨op, rest⟩
      · exact hfree _ rfl rfl h
      · rw [Lib.ok_bind] at h
        dsimp only at h
        split at h
        · next hop =>
          obtain ⟨column, hcolumn, h⟩ := Lib.bind_ok.1 h
          obtain ⟨⟨values, left⟩, hvalues, h⟩ := Lib.bind_ok.1 h
          obtain ⟨c, hc, h⟩ := Lib.bind_ok.1 h
          cases h
          obtain ⟨vs, hvs, hv, hfew⟩ := Values.of_parseValues 0 rest values left hvalues
          refine ⟨t :: op :: vs, 0, 1, by rw [ht, hvs]; rfl, ?_, rfl, by dsimp only; omega, by omega⟩
          exact .comparison (hfield t List.mem_cons_self column hcolumn) hnot' hop hcolumn hv (by omega) hc
        · exact hfree _ rfl rfl h

/-- A term read before a conjunction, and what stands between them. -/
theorem Reads.connect {b : Builtins F} {depth : Nat} {s₀ s s₁ s' : ParserState} {n : Node F} {ns : List (Node F)}
    (hterm : Reads b .term depth s₀ s [n]) (hrest : Reads b .conj depth s₁ s' ns) (hnodes : s₁.nodes = s.nodes)
    (hglue : (∃ t, t.isAnd b = true ∧ s.tokens = t :: s₁.tokens) ∨
      (s₁.tokens = s.tokens ∧ ∀ t ∈ s.tokens.head?, t.isAnd b = false ∧ t.isOr b = false)) :
    Reads b .conj depth s₀ s' (n :: ns) := by
  obtain ⟨ts, d, k, hts, hd, hk, -, hdepth⟩ := hterm
  obtain ⟨us, d', k', hus, hd', hk', hmax, hdepth'⟩ := hrest
  rcases hglue with ⟨t, hand, ht⟩ | ⟨ht, hno⟩
  · refine ⟨ts ++ t :: us, max d d', k + k', ?_, .and hd hand hd', by omega, hmax, by omega⟩
    rw [hts, ht, hus, List.append_assoc, List.cons_append]
  · refine ⟨ts ++ us, max d d', k + k', ?_, .juxtaposed hd ?_ hd', by omega, hmax, by omega⟩
    · rw [hts, ← ht, hus, List.append_assoc]
    · rw [← ht, hus] at hno
      obtain ⟨t, us', rfl, -⟩ := hd'.head
      rintro t' ⟨⟩
      exact hno t rfl

theorem Reads.one {b : Builtins F} {depth : Nat} {s s' : ParserState} {n : Node F} (h : Reads b .term depth s s' [n]) :
    Reads b .conj depth s s' [n] := by
  obtain ⟨ts, d, k, hts, hd, hrest⟩ := h
  exact ⟨ts, d, k, hts, .one hd, hrest⟩

theorem Reads.fielded {b : Builtins F} {l : Level} {depth : Nat} {s s' : ParserState} {ns : List (Node F)}
    (h : Reads b l depth s s' ns) (hfield : Fielded b s.tokens) : Fielded b s'.tokens := by
  obtain ⟨ts, d, k, hts, -⟩ := h
  rw [hts] at hfield
  exact hfield.of_append

/-- NOT and the term behind it. -/
theorem Reads.not {b : Builtins F} {depth : Nat} {s s₁ s' : ParserState} {t : Token} {n : Node F}
    (h : Reads b .term depth s₁ s' [n]) (ht : s.tokens = t :: s₁.tokens) (hnot : t.isNot b = true)
    (hnodes : s₁.nodes = s.nodes + 1) : Reads b .term depth s s' [.not n] := by
  obtain ⟨ts, d, k, hts, hd, hk, hmax, hdepth⟩ := h
  exact ⟨t :: ts, d, k + 1, by rw [ht, hts]; rfl, .not hnot hd, by omega, hmax, hdepth⟩

/-- The parentheses and the expression between them. -/
theorem Reads.group {b : Builtins F} {depth : Nat} {s s₁ s₂ s' : ParserState} {l r : Token} {ns : List (Node F)}
    (h : Reads b .disj (depth + 1) s₁ s₂ ns) (hl : s.tokens = l :: s₁.tokens) (hleft : l.kind = .lparen)
    (hr : s₂.tokens = r :: s'.tokens) (hright : r.kind = .rparen) (hnodes : s₁.nodes = s.nodes)
    (hnodes' : s'.nodes = s₂.nodes) : Reads b .term depth s s' [collapse .or ns] := by
  obtain ⟨ts, d, k, hts, hd, hk, hmax, hdepth⟩ := h
  refine ⟨l :: (ts ++ [r]), d + 1, k, ?_, .group hleft hright hd, by omega, by omega, by omega⟩
  rw [hl, hts, hr, List.cons_append, List.append_assoc, List.singleton_append]

theorem Reads.conj {b : Builtins F} {depth : Nat} {s s' : ParserState} {ns : List (Node F)}
    (h : Reads b .conj depth s s' ns) : Reads b .disj depth s s' [collapse .and ns] := by
  obtain ⟨ts, d, k, hts, hd, hrest⟩ := h
  exact ⟨ts, d, k, hts, .conj hd, hrest⟩

/-- A conjunction and the ones behind OR. -/
theorem Reads.or {b : Builtins F} {depth : Nat} {s₀ s s₁ s' : ParserState} {t : Token} {ns ms : List (Node F)}
    (hterms : Reads b .conj depth s₀ s ns) (hrest : Reads b .disj depth s₁ s' ms) (hor : t.isOr b = true)
    (ht : s.tokens = t :: s₁.tokens) (hnodes : s₁.nodes = s.nodes) :
    Reads b .disj depth s₀ s' (collapse .and ns :: ms) := by
  obtain ⟨ts, d, k, hts, hd, hk, -, hdepth⟩ := hterms
  obtain ⟨us, d', k', hus, hd', hk', hmax, hdepth'⟩ := hrest
  refine ⟨ts ++ t :: us, max d d', k + k', ?_, .or hd hor hd', by omega, hmax, by omega⟩
  rw [hts, ht, hus, List.append_assoc, List.cons_append]

/-- Between two terms an AND is skipped, or there is no keyword. -/
theorem skipAnd {b : Builtins F} {s : ParserState} (hfield : Fielded b s.tokens) (hor : ¬isKeyword b "OR" s.tokens = true) :
    let s₁ : ParserState := if isKeyword b "AND" s.tokens then { s with tokens := s.tokens.tail } else s
    ((∃ t, t.isAnd b = true ∧ s.tokens = t :: s₁.tokens) ∨
      (s₁.tokens = s.tokens ∧ ∀ t ∈ s.tokens.head?, t.isAnd b = false ∧ t.isOr b = false)) ∧
    s₁.nodes = s.nodes ∧ Fielded b s₁.tokens := by
  split
  · next hkw =>
    obtain ⟨t, rest, ht, hand⟩ := isKeyword_cons hkw
    refine ⟨.inl ⟨t, hand, by rw [ht]; rfl⟩, rfl, ?_⟩
    dsimp only
    rw [ht] at hfield ⊢
    exact hfield.tail
  · next hkw =>
    refine ⟨.inr ⟨rfl, ?_⟩, rfl, hfield⟩
    intro t ht
    rw [isKeyword_head ht] at hkw hor
    exact ⟨Bool.eq_false_of_not_eq_true hkw, Bool.eq_false_of_not_eq_true hor⟩

/-- What each function of the descent reads with so much fuel is in the grammar; a loop continues
what was read before it. -/
structure DescentReads (b : Builtins F) (fuel depth : Nat) (s : ParserState) : Prop where
  term : depth ≤ maxDepth → ∀ n s', parseTerm b fuel depth s = .ok (n, s') → Reads b .term depth s s' [n]
  and : depth ≤ maxDepth → ∀ n s', parseAnd b fuel depth s = .ok (n, s') →
    ∃ ns, n = collapse .and ns ∧ Reads b .conj depth s s' ns ∧ Follows b .conj s'.tokens
  andLoop : depth ≤ maxDepth → ∀ ns s' s₀ n, andLoop b fuel depth s = .ok (ns, s') → Reads b .term depth s₀ s [n] →
    Reads b .conj depth s₀ s' (n :: ns) ∧ Follows b .conj s'.tokens
  orLoop : depth ≤ maxDepth → ∀ ms s' s₀ ns, orLoop b fuel depth s = .ok (ms, s') → Reads b .conj depth s₀ s ns →
    Follows b .conj s.tokens → Reads b .disj depth s₀ s' (collapse .and ns :: ms) ∧ Follows b .disj s'.tokens
  or : ∀ n s', parseOr b fuel depth s = .ok (n, s') →
    ∃ ns, n = collapse .or ns ∧ Reads b .disj depth s s' ns ∧ Follows b .disj s'.tokens

section

variable {b : Builtins F} {fuel depth : Nat} {s s' : ParserState}
  (ih : ∀ (depth : Nat) (s : ParserState), Fielded b s.tokens → DescentReads b fuel depth s)
include ih

theorem parseTerm_reads (hfield : Fielded b s.tokens) (hdepth : depth ≤ maxDepth) {n : Node F}
    (h : parseTerm b (fuel + 1) depth s = .ok (n, s')) : Reads b .term depth s s' [n] := by
  rw [parseTerm] at h
  split at h
  · next hkw =>
    obtain ⟨t, rest, ht, hnot⟩ : ∃ t rest, s.tokens = t :: rest ∧ t.isNot b = true := by
      rcases htokens : s.tokens with _ | ⟨t, rest⟩
      · rw [htokens] at hkw; cases hkw
      · rw [htokens] at hkw; exact ⟨t, rest, rfl, hkw⟩
    rw [ht, List.tail_cons] at h
    obtain ⟨s₁, hc, h⟩ := Lib.bind_ok.1 h
    obtain ⟨⟨n', s₂⟩, hterm, h⟩ := Lib.bind_ok.1 h
    cases h
    obtain ⟨htokens, hnodes⟩ := countNode_eq hc
    have hfield₁ : Fielded b s₁.tokens := htokens ▸ (ht ▸ hfield).tail
    exact ((ih depth s₁ hfield₁).term hdepth _ _ hterm).not (by rw [ht, htokens]) hnot hnodes
  · next hkw =>
    split at h
    · cases h
    · next t rest ht =>
      split at h
      · next hkind =>
        have hfield₁ : Fielded b rest := (ht ▸ hfield).tail
        obtain ⟨⟨n', s₂⟩, hor, h⟩ := Lib.bind_ok.1 h
        obtain ⟨ns, rfl, hreads, -⟩ := (ih (depth + 1) ⟨rest, s.nodes⟩ hfield₁).or n' s₂ hor
        dsimp only at h
        split at h
        · next closing left hclosing =>
          split at h
          · next hright =>
            cases h
            exact hreads.group ht hkind hclosing hright rfl rfl
          · cases h
        · cases h
      · refine parseComparison_reads hfield ?_ hdepth h
        rw [ht] at hkw ⊢
        have hnot : ¬ t.isNot b = true := hkw
        simpa using hnot

theorem parseAnd_reads (hfield : Fielded b s.tokens) (hdepth : depth ≤ maxDepth) {n : Node F}
    (h : parseAnd b (fuel + 1) depth s = .ok (n, s')) :
    ∃ ns, n = collapse .and ns ∧ Reads b .conj depth s s' ns ∧ Follows b .conj s'.tokens := by
  rw [parseAnd] at h
  obtain ⟨⟨n', s₁⟩, hterm, h⟩ := Lib.bind_ok.1 h
  obtain ⟨⟨ns, s₂⟩, hloop, h⟩ := Lib.bind_ok.1 h
  cases h
  have hreads := (ih depth s hfield).term hdepth n' s₁ hterm
  exact ⟨_, rfl, (ih depth s₁ (hreads.fielded hfield)).andLoop hdepth _ _ s n' hloop hreads⟩

theorem andLoop_reads (hfield : Fielded b s.tokens) (hdepth : depth ≤ maxDepth) {ns : List (Node F)} {s₀ : ParserState}
    {n : Node F} (h : andLoop b (fuel + 1) depth s = .ok (ns, s')) (hreads : Reads b .term depth s₀ s [n]) :
    Reads b .conj depth s₀ s' (n :: ns) ∧ Follows b .conj s'.tokens := by
  rw [andLoop] at h
  split at h
  · next hstop =>
    cases h
    refine ⟨hreads.one, ?_⟩
    intro t ht
    rw [Bool.or_eq_true] at hstop
    rcases hstop with hstop | hstop
    · exact .inl (by simpa [Option.mem_def.1 ht] using hstop)
    · exact .inr ((isKeyword_head ht).symm.trans hstop)
  · next hstop =>
    rw [Bool.or_eq_true, not_or] at hstop
    obtain ⟨hglue, hnodes, hfield₁⟩ := skipAnd hfield hstop.2
    dsimp only at h
    generalize (if isKeyword b "AND" s.tokens then { s with tokens := s.tokens.tail } else s) = s₁ at h hglue hnodes hfield₁
    obtain ⟨⟨n', s₂⟩, hterm, h⟩ := Lib.bind_ok.1 h
    obtain ⟨⟨ns', s₃⟩, hloop, h⟩ := Lib.bind_ok.1 h
    cases h
    have hreads' := (ih depth s₁ hfield₁).term hdepth n' s₂ hterm
    obtain ⟨hconj, hfollows⟩ := (ih depth s₂ (hreads'.fielded hfield₁)).andLoop hdepth _ _ s₁ n' hloop hreads'
    exact ⟨hreads.connect hconj hnodes hglue, hfollows⟩

theorem orLoop_reads (hfield : Fielded b s.tokens) (hdepth : depth ≤ maxDepth) {ms : List (Node F)} {s₀ : ParserState}
    {ns : List (Node F)} (h : orLoop b (fuel + 1) depth s = .ok (ms, s')) (hreads : Reads b .conj depth s₀ s ns)
    (hfollows : Follows b .conj s.tokens) :
    Reads b .disj depth s₀ s' (collapse .and ns :: ms) ∧ Follows b .disj s'.tokens := by
  rw [orLoop] at h
  split at h
  · next hkw =>
    obtain ⟨t, rest, ht, hor⟩ := isKeyword_cons hkw
    rw [ht, List.tail_cons] at h
    have hfield₁ : Fielded b rest := (ht ▸ hfield).tail
    obtain ⟨⟨n', s₂⟩, hand, h⟩ := Lib.bind_ok.1 h
    obtain ⟨⟨ms', s₃⟩, hloop, h⟩ := Lib.bind_ok.1 h
    cases h
    obtain ⟨ns', rfl, hreads', hfollows'⟩ := (ih depth ⟨rest, s.nodes⟩ hfield₁).and hdepth n' s₂ hand
    obtain ⟨hdisj, hend⟩ := (ih depth s₂ (hreads'.fielded hfield₁)).orLoop hdepth _ _ _ ns' hloop hreads' hfollows'
    exact ⟨hreads.or hdisj hor ht rfl, hend⟩
  · next hkw =>
    cases h
    refine ⟨hreads.conj, ?_⟩
    intro t ht
    exact (hfollows t ht).resolve_right fun hor => hkw ((isKeyword_head ht).trans hor)

theorem parseOr_reads (hfield : Fielded b s.tokens) {n : Node F} (h : parseOr b (fuel + 1) depth s = .ok (n, s')) :
    ∃ ns, n = collapse .or ns ∧ Reads b .disj depth s s' ns ∧ Follows b .disj s'.tokens := by
  rw [parseOr] at h
  split at h
  · cases h
  · next hdepth =>
    have hle : depth ≤ maxDepth := by omega
    obtain ⟨⟨n', s₁⟩, hand, h⟩ := Lib.bind_ok.1 h
    obtain ⟨⟨ms, s₂⟩, hloop, h⟩ := Lib.bind_ok.1 h
    cases h
    obtain ⟨ns, rfl, hreads, hfollows⟩ := (ih depth s hfield).and hle n' s₁ hand
    exact ⟨_, rfl, (ih depth s₁ (hreads.fielded hfield)).orLoop hle _ _ s ns hloop hreads hfollows⟩

end

theorem descent_sound {b : Builtins F} (fuel : Nat) :
    ∀ (depth : Nat) (s : ParserState), Fielded b s.tokens → DescentReads b fuel depth s := by
  induction fuel with
  | zero =>
    intro depth s _
    constructor
    case term => intro _ n s' h; rw [parseTerm] at h; cases h
    case and => intro _ n s' h; rw [parseAnd] at h; cases h
    case andLoop => intro _ ns s' s₀ n h; rw [andLoop] at h; cases h
    case orLoop => intro _ ms s' s₀ ns h; rw [orLoop] at h; cases h
    case or => intro n s' h; rw [parseOr] at h; cases h
  | succ fuel ih =>
    intro depth s hfield
    exact {
      term := fun hdepth _ _ h => parseTerm_reads ih hfield hdepth h
      and := fun hdepth _ _ h => parseAnd_reads ih hfield hdepth h
      andLoop := fun hdepth _ _ _ _ h hreads => andLoop_reads ih hfield hdepth h hreads
      orLoop := fun hdepth _ _ _ _ h hreads hfollows => orLoop_reads ih hfield hdepth h hreads hfollows
      or := fun _ _ h => parseOr_reads ih hfield h }

/-- What the parser accepts is an expression within the limits, with the tree it gives. -/
theorem Derives.of_parse {b : Builtins F} {tokens : List Token} (hfield : Fielded b tokens) {n : Node F}
    (h : Search.parse b tokens = .ok (some n)) :
    ∃ ns d k, n = collapse .or ns ∧ Derives b .disj tokens ns d k ∧ d ≤ maxDepth ∧ k ≤ maxNodes := by
  cases tokens with
  | nil => cases h
  | cons t rest =>
    unfold Search.parse at h
    dsimp only at h
    cases hor : parseOr b (parseFuel (t :: rest)) 0 ⟨t :: rest, 0⟩ with
    | error e => rw [hor] at h; cases h
    | ok x =>
      obtain ⟨n', s⟩ := x
      rw [hor] at h
      dsimp only at h
      split at h
      · next hs =>
        cases h
        obtain ⟨ns, hn, ⟨ts, d, k, hts, hd, hk, hmax, hdepth⟩, -⟩ :=
          (descent_sound _ 0 ⟨t :: rest, 0⟩ hfield).or n s hor
        rw [hs, List.append_nil] at hts
        dsimp only at hts hk
        rw [hts]
        exact ⟨ns, d, k, hn, hd, by omega, by omega⟩
      · cases h

end LogAnalytics.Search
