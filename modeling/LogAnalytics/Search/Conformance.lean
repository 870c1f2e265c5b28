import LogAnalytics.Search.Grammar
import LogAnalytics.Search.Injection
/-!
# Grammar conformance

The language of the parser as a flat grammar without trees: an expression is a row of terms,
with a keyword between two of them or with none. `Documented` is the grammar in the header of
the source's module; it also connects terms by a comma, which the parser reads in a value list only.
-/

namespace LogAnalytics.Search

variable {F : Type}

/-- A term, or a row of terms. -/
inductive Part where
  | term | expression
  deriving DecidableEq

/-- `op value`: an operator the parser knows, with as many values as it takes. -/
def OperatorTakes (operator : Text) (values : List Text) : Prop :=
  ∃ o, Operator.ofText operator = some o ∧ (values.length = 1 ∨ o.takesList = true)

/-- The expressions, with the depth of their parentheses and the number of their nodes. -/
inductive Sentence (b : Builtins F) : Part → List Token → (depth nodes : Nat) → Prop
  | not {t : Token} {ts : List Token} {d k : Nat} (keyword : t.isNot b = true) (child : Sentence b .term ts d k) :
      Sentence b .term (t :: ts) d (k + 1)
  | group {l r : Token} {ts : List Token} {d k : Nat} (left : l.kind = .lparen) (right : r.kind = .rparen)
      (inner : Sentence b .expression ts d k) : Sentence b .term (l :: (ts ++ [r])) (d + 1) k
  | comparison {t op : Token} {vs : List Token} {values : List Text} {column : Column} (field : t.isValue = true)
      (notNot : t.isNot b = false) (resolves : resolveColumn b t.value = .ok column) (isOp : op.kind = .op)
      (value : Values vs values) (few : values.length ≤ maxInValues) (takes : OperatorTakes op.value values) :
      Sentence b .term (t :: op :: vs) 0 1
  | freeText {t : Token} (value : t.isValue = true) (notNot : t.isNot b = false)
      (short : t.value.length ≤ maxValueLength) : Sentence b .term [t] 0 1
  | one {ts : List Token} {d k : Nat} (term : Sentence b .term ts d k) : Sentence b .expression ts d k
  | connected {t : Token} {ts us : List Token} {d d' k k' : Nat} (term : Sentence b .term ts d k)
      (keyword : t.isAnd b = true ∨ t.isOr b = true) (rest : Sentence b .expression us d' k') :
      Sentence b .expression (ts ++ t :: us) (max d d') (k + k')
  | juxtaposed {ts us : List Token} {d d' k k' : Nat} (term : Sentence b .term ts d k)
      (noKeyword : ∀ t ∈ us.head?, t.isAnd b = false ∧ t.isOr b = false) (rest : Sentence b .expression us d' k') :
      Sentence b .expression (ts ++ us) (max d d') (k + k')

/-- The fields that are compared are text columns, as far as they are columns. -/
def StringColumns (b : Builtins F) (tokens : List Token) : Prop :=
  ∀ t op rest, t :: op :: rest <:+ tokens → op.kind = .op → ∀ column, resolveColumn b t.value = .ok column →
    column.isString = true

/-- What the tokenizer gives for punctuation. -/
def Token.Lexical (t : Token) : Prop :=
  match t.kind with
  | .lparen => t.value = Text.ofString "("
  | .rparen => t.value = Text.ofString ")"
  | .comma => t.value = Text.ofString ","
  | .op => t.value ∈ operatorPatterns
  | .quoted | .word => True

/-! ## Tokens of a text -/

theorem matchToken_lexical {text value rest : Text} {kind : TokenKind} {length : Nat}
    (h : matchToken text = some (.token kind value length rest)) (position : Nat) :
    (⟨kind, value, position⟩ : Token).Lexical := by
  unfold matchToken at h
  split at h
  · cases h
  · split at h
    · cases h
    · split at h
      · next hc => cases h; rw [hc]; rfl
      · split at h
        · next hc => cases h; rw [hc]; rfl
        · split at h
          · next op hop => cases h; exact List.mem_of_find?_eq_some hop
          · split at h
            · next hc => cases h; rw [hc]; rfl
            · split at h
              · cases h; trivial
              · dsimp only at h
                split at h
                · cases h
                · cases h; trivial

/-- The parser is given lexical tokens only. -/
theorem tokenize_lexical {case : TextCase} {text : Text} {tokens : List Token} (h : tokenize case text = .ok tokens) :
    ∀ t ∈ tokens, t.Lexical :=
  tokenize_forall matchToken_lexical (fun _ _ _ => trivial) (fun _ _ _ _ _ _ => trivial) h

/-! ## Comparisons of text columns -/

theorem coerce_string {b : Builtins F} {column : Column} (h : column.isString = true) (value : Text) :
    coerce b column value = .ok (.text value) := by
  rw [Column.isString, Bool.and_eq_true, Bool.not_eq_true', Bool.not_eq_true'] at h
  rw [coerce, h.1, h.2]
  rfl

theorem coerceAll_string {b : Builtins F} {column : Column} (h : column.isString = true) (values : List Text) :
    coerceAll b column values = .ok (values.map .text) := by
  induction values with
  | nil => rfl
  | cons value values ih =>
    rw [coerceAll, coerce_string h, ih]
    rfl

theorem Values.ne_nil {vs : List Token} {values : List Text} (h : Values vs values) : values ≠ [] := by
  cases h <;> simp

/-- No punctuation is a field name. -/
theorem Token.Lexical.isValue {b : Builtins F} {t : Token} (h : t.Lexical) {column : Column}
    (hcolumn : resolveColumn b t.value = .ok column) : t.isValue = true := by
  have hnone : ∀ p ∈ operatorPatterns ++ ["(", ")", ","].map Text.ofString,
      p.strip.isAscii = true ∧ Column.ofKey (p.strip.map Text.asciiLower) = none := by decide
  have hpunct : t.value ∉ operatorPatterns ++ ["(", ")", ","].map Text.ofString := by
    intro hmem
    obtain ⟨hascii, hkey⟩ := hnone t.value hmem
    rw [resolveColumn, b.case.lower_ascii _ hascii, hkey] at hcolumn
    cases hcolumn
  unfold Token.Lexical at h
  unfold Token.isValue
  cases hkind : t.kind with
  | word => rfl
  | quoted => rfl
  | lparen | rparen | comma => simp [hkind] at h; exact absurd (by simp [h]) hpunct
  | op => rw [hkind] at h; exact absurd (List.mem_append_left _ h) hpunct
theorem Fielded.of_lexical {b : Builtins F} {tokens : List Token} (h : ∀ t ∈ tokens, t.Lexical) : Fielded b tokens :=
  fun t ht _ hcolumn => (h t ht).isValue hcolumn

theorem StringColumns.left {b : Builtins F} {ts us : List Token} (h : StringColumns b (ts ++ us)) :
    StringColumns b ts := by
  rintro t op rest ⟨pre, hpre⟩
  exact h t op (rest ++ us) ⟨pre, by rw [← hpre]; simp⟩

theorem StringColumns.right {b : Builtins F} {ts us : List Token} (h : StringColumns b (ts ++ us)) :
    StringColumns b us :=
  fun t op rest hsuffix => h t op rest (hsuffix.trans (List.suffix_append ts us))

theorem StringColumns.tail {b : Builtins F} {t : Token} {us : List Token} (h : StringColumns b (t :: us)) :
    StringColumns b us :=
  fun t' op rest hsuffix => h t' op rest (hsuffix.trans (List.suffix_cons t us))

/-! ## The two grammars -/

theorem Sentence.ne_nil {b : Builtins F} {p : Part} {ts : List Token} {d k : Nat} (h : Sentence b p ts d k) : ts ≠ [] := by
  induction h with
  | not | group | comparison | freeText => simp
  | one _ ih => exact ih
  | connected _ _ _ ih _ => simp [ih]
  | juxtaposed _ _ _ ih _ => simp [ih]

/-- Two expressions with OR between them. -/
theorem Sentence.or {b : Builtins F} {p : Part} {ts us : List Token} {d d' k k' : Nat} {t : Token}
    (h : Sentence b p ts d k) (hor : t.isOr b = true) (hrest : Sentence b .expression us d' k') :
    p = .expression → Sentence b .expression (ts ++ t :: us) (max d d') (k + k') := by
  induction h with
  | not | group | comparison | freeText => rintro ⟨⟩
  | one term _ => exact fun _ => .connected term (.inr hor) hrest
  | @connected t₀ ts₀ us₀ d₀ d₁ k₀ k₁ term keyword _ _ ih =>
    intro hp
    rw [List.append_assoc, List.cons_append, Nat.max_assoc, Nat.add_assoc]
    exact .connected term keyword (ih hp)
  | @juxtaposed ts₀ us₀ d₀ d₁ k₀ k₁ term noKeyword rest _ ih =>
    intro hp
    rw [List.append_assoc, Nat.max_assoc, Nat.add_assoc]
    refine .juxtaposed term ?_ (ih hp)
    rw [List.head?_append_of_ne_nil _ rest.ne_nil]
    exact noKeyword

/-- The part a level belongs to. -/
def Level.part : Level → Part
  | .term => .term
  | .conj | .disj => .expression

/-- A term behind which a keyword or nothing connects an expression. -/
theorem Derives.before {b : Builtins F} {ts us : List Token} {n : Node F} {ms : List (Node F)} {d d' k k' : Nat}
    {glue : List Token} (hterm : Derives b .term ts [n] d k) (hrest : Derives b .disj us ms d' k')
    (hglue : (∃ t, glue = [t] ∧ t.isAnd b = true) ∨
      (glue = [] ∧ ∀ t ∈ us.head?, t.isAnd b = false ∧ t.isOr b = false)) :
    ∃ ms', Derives b .disj (ts ++ (glue ++ us)) ms' (max d d') (k + k') := by
  have hconj : ∀ {vs : List Token} {ns : List (Node F)} {e j : Nat}, Derives b .conj vs ns e j →
      (∀ t ∈ vs.head?, t ∈ us.head?) → Derives b .conj (ts ++ (glue ++ vs)) (n :: ns) (max d e) (k + j) := by
    intro vs ns e j hvs hhead
    rcases hglue with ⟨t, rfl, hand⟩ | ⟨rfl, hno⟩
    · exact .and hterm hand hvs
    · exact .juxtaposed hterm (fun t ht => hno t (hhead t ht)) hvs
  cases hrest with
  | conj terms => exact ⟨_, .conj (hconj terms fun t ht => ht)⟩
  | @or t vs ws ns ms d₁ d₂ k₁ k₂ terms keyword rest =>
    have hhead : ∀ t' ∈ vs.head?, t' ∈ (vs ++ t :: ws).head? := by
      intro t' ht'
      rw [List.head?_append, Option.mem_def.1 ht']
      rfl
    have h := Derives.or (hconj terms hhead) keyword rest
    rw [← Nat.max_assoc, ← Nat.add_assoc]
    simp only [List.append_assoc] at h
    exact ⟨_, h⟩

/-- The operators of the documented grammar. -/
def documentedOperators : List Text := ["=", "!=", ":", ">", ">=", "<", "<=", "~"].map Text.ofString

/-- The symbols of the documented grammar; `body` is what NOT stands before. -/
inductive Symbol where
  | expression | term | body
  deriving DecidableEq

/-- The documented grammar; a comparison's field is an allow-listed one. -/
inductive Documented (b : Builtins F) : Symbol → List Token → Prop
  | one {ts : List Token} (term : Documented b .term ts) : Documented b .expression ts
  | separated {t : Token} {ts us : List Token} (term : Documented b .term ts)
      (separator : t.isAnd b = true ∨ t.isOr b = true ∨ t.kind = .comma) (rest : Documented b .expression us) :
      Documented b .expression (ts ++ t :: us)
  | adjacent {ts us : List Token} (term : Documented b .term ts) (rest : Documented b .expression us) :
      Documented b .expression (ts ++ us)
  | plain {ts : List Token} (body : Documented b .body ts) : Documented b .term ts
  | not {t : Token} {ts : List Token} (keyword : t.isKeyword b "NOT" = true) (body : Documented b .body ts) :
      Documented b .term (t :: ts)
  | group {l r : Token} {ts : List Token} (left : l.kind = .lparen) (right : r.kind = .rparen)
      (inner : Documented b .expression ts) : Documented b .body (l :: (ts ++ [r]))
  | comparison {t op : Token} {vs : List Token} {values : List Text} {column : Column} (field : t.isValue = true)
      (resolves : resolveColumn b t.value = .ok column) (isOp : op.kind = .op) (known : op.value ∈ documentedOperators)
      (value : Values vs values) : Documented b .body (t :: op :: vs)
  | freeText {t : Token} (value : t.isValue = true) : Documented b .body [t]

end LogAnalytics.Search
