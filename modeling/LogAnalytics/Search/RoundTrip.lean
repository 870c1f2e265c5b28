import Mathlib.Data.List.Chain
import LogAnalytics.Search.Conformance
/-!
# Render and parse

A query tree written out as text, with every value quoted and every compound child in
parentheses, is tokenized and parsed to the same tree.
-/

namespace LogAnalytics.Search

variable {F : Type}

/-! ## Rendering -/

def quote (value : Text) : Text := chr '"' :: (value ++ [chr '"'])

/-- `sep.join(texts)` -/
def joinTexts (sep : Text) : List Text → Text
  | [] => []
  | [t] => t
  | t :: ts => t ++ sep ++ joinTexts sep ts

/-- What is written for a value; the values of text columns are texts. -/
def Value.written : Value F → Text
  | .text t => t
  | _ => []

def Comparison.render (c : Comparison F) : Text :=
  Text.ofString c.column.name ++ Text.ofString c.operator.text ++
    joinTexts (Text.ofString ",") ((c.value.toList ++ c.values).map fun v => quote v.written)

def Connective.keyword : Connective → String
  | .and => "AND"
  | .or => "OR"

/-- AND and OR are compound; NOT is where `wrapNot` says so. -/
def Node.isCompound (wrapNot : Bool) : Node F → Bool
  | .boolOp _ _ => true
  | .not _ => wrapNot
  | _ => false

/-- In parentheses, or as it is. -/
def parenthesize (compound : Bool) (t : Text) : Text := if compound then chr '(' :: (t ++ [chr ')']) else t

mutual

def Node.render (wrapNot : Bool) : Node F → Text
  | .comparison c => c.render
  | .freeText value => quote value
  | .not child =>
    Text.ofString "NOT" ++ (Text.ofString " " ++ parenthesize (child.isCompound wrapNot) (child.render wrapNot))
  | .boolOp op children =>
    joinTexts (Text.ofString " " ++ (Text.ofString op.keyword ++ Text.ofString " ")) (renderChildren wrapNot children)

/-- The children of a `boolOp`, in parentheses where they are compound. -/
def renderChildren (wrapNot : Bool) : List (Node F) → List Text
  | [] => []
  | child :: children =>
    parenthesize (child.isCompound wrapNot) (child.render wrapNot) :: renderChildren wrapNot children

end

mutual

/-- The nodes the parser counts: NOT and the leaves. -/
def Node.nodes : Node F → Nat
  | .comparison _ | .freeText _ => 1
  | .not child => child.nodes + 1
  | .boolOp _ children => nodesAll children

def nodesAll : List (Node F) → Nat
  | [] => 0
  | child :: children => child.nodes + nodesAll children

end

mutual

/-- The depth of the parentheses of a tree's text. -/
def Node.depth (wrapNot : Bool) : Node F → Nat
  | .comparison _ | .freeText _ => 0
  | .not child => child.depth wrapNot + (child.isCompound wrapNot).toNat
  | .boolOp _ children => depthAll wrapNot children

def depthAll (wrapNot : Bool) : List (Node F) → Nat
  | [] => 0
  | child :: children => max (child.depth wrapNot + (child.isCompound wrapNot).toNat) (depthAll wrapNot children)

end

/-- A value within the length limit, without wildcards and double quotes. -/
def PlainValue (value : Text) : Prop := chr '*' ∉ value ∧ chr '"' ∉ value ∧ value.length ≤ maxValueLength

/-- The trees of comparisons and lists over text columns, free text, NOT, AND and OR. -/
inductive Renderable : Node F → Prop
  | comparison {column : Column} {operator : Operator} {value : Text} (string : column.isString = true)
      (notTilde : operator ≠ .tilde) (plain : PlainValue value) :
      Renderable (.comparison { column := column, operator := operator, value := some (.text value) })
  | list {column : Column} {values : List Text} (string : column.isString = true) (several : 2 ≤ values.length)
      (few : values.length ≤ maxInValues) (plain : ∀ v ∈ values, PlainValue v) :
      Renderable (.comparison { column := column, operator := .eq, value := none, values := values.map .text })
  | freeText {value : Text} (plain : PlainValue value) : Renderable (.freeText value)
  | not {child : Node F} (renderable : Renderable child) : Renderable (.not child)
  | boolOp {op : Connective} {children : List (Node F)} (several : 2 ≤ children.length)
      (all : ∀ child ∈ children, Renderable child) : Renderable (.boolOp op children)

/-! ## Pieces of text -/

/-- Wherever a text stands, it is read as these tokens. -/
def Lexes (position : Nat) (text : Text) (tokens : List Token) : Prop :=
  ∀ rest, lex position (text ++ rest) = (lex (position + text.length) rest).map (tokens ++ ·)

theorem Lexes.append {position : Nat} {t u : Text} {ts us : List Token} (ht : Lexes position t ts)
    (hu : Lexes (position + t.length) u us) : Lexes position (t ++ u) (ts ++ us) := by
  intro rest
  rw [List.append_assoc, ht, hu, List.length_append, Nat.add_assoc]
  cases lex (position + (t.length + u.length)) rest with
  | error e => rfl
  | ok tokens => simp [Except.map]

/-- A piece the tokenizer matches as one token whatever follows. -/
theorem Lexes.token {position : Nat} {text value : Text} {kind : TokenKind} {length : Nat} (hlen : length = text.length)
    (h : ∀ rest, matchToken (text ++ rest) = some (.token kind value length rest)) :
    Lexes position text [⟨kind, value, position⟩] := by
  intro rest
  rw [lex_token (h rest), hlen]
  rfl

theorem lex_space {position : Nat} {c : CodePoint} (hc : Text.isSpace c = true) (rest : Text) :
    lex position (c :: rest) = lex (position + 1) rest := by
  have hblank : ∀ (d : CodePoint) (text : Text), Text.isSpace d = true →
      matchToken (d :: text) = some (.blank (text.dropWhile Text.isSpace)) := by
    intro d text hd
    rw [matchToken, if_pos hd]
  rw [lex_blank (hblank c rest hc)]
  cases rest with
  | nil => simp
  | cons d text =>
    cases hd : Text.isSpace d with
    | false => simp [hd]
    | true =>
      have hle : (text.dropWhile Text.isSpace).length ≤ text.length := (List.dropWhile_suffix _).length_le
      rw [lex_blank (hblank d text hd), List.dropWhile_cons_of_pos hd]
      simp only [List.length_cons]
      congr 1
      omega

theorem Lexes.space (position : Nat) : Lexes position (Text.ofString " ") [] := by
  intro rest
  rw [show Text.ofString " " ++ rest = chr ' ' :: rest from rfl, lex_space (by decide)]
  change _ = (lex (position + 1) rest).map ([] ++ ·)
  cases lex (position + 1) rest <;> rfl

theorem matchToken_punctuation {kind : TokenKind} {c : CodePoint}
    (h : (kind, c) ∈ [(TokenKind.lparen, chr '('), (.rparen, chr ')'), (.comma, chr ',')]) (rest : Text) :
    matchToken ([c] ++ rest) = some (.token kind [c] 1 rest) := by
  simp only [List.mem_cons, Prod.mk.injEq, List.not_mem_nil, or_false] at h
  rcases h with ⟨rfl, rfl⟩ | ⟨rfl, rfl⟩ | ⟨rfl, rfl⟩ <;> rfl

theorem matchToken_quote {value : Text} (h : PlainValue value) (rest : Text) :
    matchToken (quote value ++ rest) = some (.token .quoted value (value.length + 2) rest) := by
  have hquote : matchQuoted (chr '"') (quote value ++ rest) = some (value, rest) := by
    have htake : (value ++ [chr '"'] ++ rest).takeWhile (· ≠ chr '"') = value := by
      rw [List.append_assoc, List.takeWhile_append_of_pos]
      · simp
      · intro c hc
        simpa using fun heq : c = chr '"' => h.2.1 (heq ▸ hc)
    have hdrop : (value ++ [chr '"'] ++ rest).drop value.length = chr '"' :: rest := by simp
    rw [quote, List.cons_append, matchQuoted, if_pos rfl]
    dsimp only
    rw [htake, hdrop]
    simp [h.2.2]
  have hspace : Text.isSpace (chr '"') = false := by decide
  have hfind : operatorPatterns.find? (·.isPrefixOf (quote value ++ rest)) = none := rfl
  rw [quote, List.cons_append] at hquote hfind ⊢
  rw [matchToken, hspace, if_neg (by simp), if_neg (by decide), if_neg (by decide), hfind]
  dsimp only
  rw [if_neg (by decide), hquote]
  rfl

/-- No operator begins with a character of a word. -/
theorem find_operator_word {c : CodePoint} (hc : isWordChar c = true) (text : Text) :
    operatorPatterns.find? (·.isPrefixOf (c :: text)) = none := by
  have hhead : ∀ op ∈ operatorPatterns, op.head?.all (fun d => !isWordChar d) = true ∧ op ≠ [] := by decide
  rw [List.find?_eq_none]
  intro op hop hpre
  obtain ⟨hall, hne⟩ := hhead op hop
  cases op with
  | nil => exact hne rfl
  | cons d op =>
    rw [List.isPrefixOf_cons_cons, Bool.and_eq_true, beq_iff_eq] at hpre
    rw [hpre.1] at hall
    simp [hc] at hall

theorem matchToken_word {word : Text} (hne : word ≠ []) (hword : ∀ c ∈ word, isWordChar c = true)
    (hlen : word.length ≤ maxValueLength) {rest : Text} (hrest : ∀ c ∈ rest.head?, isWordChar c = false) :
    matchToken (word ++ rest) = some (.token .word word word.length rest) := by
  have htake : (word ++ rest).takeWhile isWordChar = word := by
    rw [List.takeWhile_append_of_pos hword]
    cases rest with
    | nil => simp
    | cons c rest => simp [hrest c rfl]
  have hdrop : (word ++ rest).drop word.length = rest := by simp
  cases word with
  | nil => exact absurd rfl hne
  | cons c word =>
    have hc := hword c List.mem_cons_self
    have hspace : Text.isSpace c = false := by
      rw [isWordChar, Bool.and_eq_true, Bool.not_eq_true'] at hc
      exact hc.1
    have hother : ∀ d, isWordChar d = false → c ≠ d := by
      rintro d hd rfl
      rw [hc] at hd
      cases hd
    have hquoted : ∀ q, c ≠ q → matchQuoted q (c :: (word ++ rest)) = none := fun q hq => by rw [matchQuoted, if_neg hq]
    rw [List.cons_append] at htake hdrop ⊢
    rw [matchToken, hspace, if_neg (by simp), if_neg (hother _ (by decide)), if_neg (hother _ (by decide)),
      find_operator_word hc]
    dsimp only
    rw [if_neg (hother _ (by decide)), hquoted _ (hother _ (by decide)), hquoted _ (hother _ (by decide))]
    dsimp only [Option.or]
    rw [htake, List.take_of_length_le hlen, if_neg (by simp), hdrop]

theorem matchToken_operator (op : Operator) (rest : Text) :
    matchToken (Text.ofString op.text ++ chr '"' :: rest) =
      some (.token .op (Text.ofString op.text) (Text.ofString op.text).length (chr '"' :: rest)) := by
  cases op <;> rfl

/-! ## Written tokens -/

/-- No colon is glued to the word before it. -/
def Unmerged (case : TextCase) (tokens : List Token) : Prop :=
  tokens.IsChain fun previous t => isValueColon case previous t = false

theorem mergeLoop_unmerged {case : TextCase} (tokens : List Token) : ∀ previous merged,
    Unmerged case (previous :: tokens) →
      mergeLoop case (previous :: merged) tokens = (previous :: merged).reverse ++ tokens := by
  induction tokens with
  | nil => intro previous merged _; rw [mergeLoop, List.append_nil]
  | cons token rest ih =>
    intro previous merged h
    obtain ⟨hcolon, hrest⟩ := List.isChain_cons_cons.1 h
    cases rest with
    | nil => rw [mergeLoop, hcolon, if_neg (by simp), List.reverse_cons]
    | cons following rest =>
      rw [mergeLoop, hcolon, if_neg (by simp), ih token (previous :: merged) hrest, List.reverse_cons (a := token),
        List.append_assoc, List.singleton_append]

theorem mergeValueColons_unmerged {case : TextCase} {tokens : List Token} (h : Unmerged case tokens) :
    mergeValueColons case tokens = tokens := by
  cases tokens with
  | nil => rfl
  | cons t rest =>
    rw [mergeValueColons, mergeLoop, mergeLoop_unmerged rest t [] h]
    rfl

/-- A text that is read as these tokens, which stay as they are behind others. -/
structure Spells (case : TextCase) (position : Nat) (text : Text) (tokens : List Token) : Prop where
  lexes : Lexes position text tokens
  unmerged : Unmerged case tokens
  head : ∀ t ∈ tokens.head?, t.kind ≠ .op

theorem isValueColon_of_ne {case : TextCase} {previous t : Token} (h : t.kind ≠ .op) :
    isValueColon case previous t = false := by
  simp [isValueColon, h]

theorem Spells.append {case : TextCase} {position : Nat} {t u : Text} {ts us : List Token}
    (ht : Spells case position t ts) (hu : Spells case (position + t.length) u us) :
    Spells case position (t ++ u) (ts ++ us) where
  lexes := ht.lexes.append hu.lexes
  unmerged := List.isChain_append.2
    ⟨ht.unmerged, hu.unmerged, fun _ _ y hy => isValueColon_of_ne (hu.head y hy)⟩
  head := by
    cases ts with
    | nil => exact hu.head
    | cons t ts => exact ht.head

theorem Spells.space (case : TextCase) (position : Nat) : Spells case position (Text.ofString " ") [] where
  lexes := .space position
  unmerged := List.isChain_nil
  head := by simp

/-- A single token that is no operator. -/
theorem Spells.single {case : TextCase} {position : Nat} {text : Text} {t : Token} (h : Lexes position text [t])
    (hkind : t.kind ≠ .op) : Spells case position text [t] where
  lexes := h
  unmerged := List.isChain_singleton t
  head := by
    rintro t' ⟨⟩
    exact hkind

theorem Spells.punctuation {case : TextCase} {position : Nat} {kind : TokenKind} {c : CodePoint}
    (h : (kind, c) ∈ [(TokenKind.lparen, chr '('), (.rparen, chr ')'), (.comma, chr ',')]) :
    Spells case position [c] [⟨kind, [c], position⟩] := by
  refine .single (.token rfl (matchToken_punctuation h)) ?_
  simp only [List.mem_cons, Prod.mk.injEq, List.not_mem_nil, or_false] at h
  rcases h with ⟨rfl, -⟩ | ⟨rfl, -⟩ | ⟨rfl, -⟩ <;> simp

theorem Spells.quote {case : TextCase} {position : Nat} {value : Text} (h : PlainValue value) :
    Spells case position (quote value) [⟨.quoted, value, position⟩] :=
  .single (.token (by simp [Search.quote]) (matchToken_quote h)) (by simp)

/-- A keyword with the blank behind it. -/
theorem Spells.keyword {case : TextCase} {position : Nat} {word : String} (h : word ∈ ["NOT", "AND", "OR"]) :
    Spells case position (Text.ofString word ++ Text.ofString " ") [⟨.word, Text.ofString word, position⟩] := by
  refine .single ?_ (by simp)
  have hword : ∀ w ∈ ["NOT", "AND", "OR"], Text.ofString w ≠ [] ∧ (Text.ofString w).all isWordChar = true ∧
      (Text.ofString w).length ≤ 32 := by decide
  obtain ⟨hne, hchars, hlen⟩ := hword word h
  intro rest
  rw [List.append_assoc, lex_token (matchToken_word hne (List.all_eq_true.1 hchars) (Nat.le_trans hlen (by decide)) (by rintro c ⟨⟩; decide)), Spells.space case _ |>.lexes,
    List.length_append, Nat.add_assoc]
  cases lex (position + ((Text.ofString word).length + (Text.ofString " ").length)) rest <;> rfl

/-! ## Fields -/

theorem Column.name_word (c : Column) : Text.ofString c.name ≠ [] ∧ (Text.ofString c.name).all isWordChar = true ∧
    (Text.ofString c.name).length ≤ 32 := by
  cases c <;> decide

theorem Column.ofKey_name (c : Column) : Column.ofKey (Text.ofString c.name) = some c := by
  have hname : ∀ s : String, (Text.ofString s = Text.ofString c.name) = (s = c.name) := fun _ =>
    propext Text.ofString_injective.eq_iff
  simp only [Column.ofKey, hname]
  cases c <;> decide

/-- The name of a column is one of its keys, and no keyword. -/
theorem Column.name_key (c : Column) : (Text.ofString c.name).isAscii = true ∧ (Text.ofString c.name).strip = Text.ofString c.name ∧
    Column.ofKey ((Text.ofString c.name).map Text.asciiLower) = some c ∧
    (Text.ofString c.name).map Text.asciiUpper ≠ Text.ofString "NOT" ∧
    (Text.ofString c.name).map Text.asciiUpper ≠ Text.ofString "-" := by
  have hlower : (Text.ofString c.name).map Text.asciiLower = Text.ofString c.name := by cases c <;> decide
  rw [hlower, c.ofKey_name]
  cases c <;> decide

theorem resolveColumn_name (b : Builtins F) (c : Column) : resolveColumn b (Text.ofString c.name) = .ok c := by
  obtain ⟨hascii, hstrip, hkey, -⟩ := c.name_key
  rw [resolveColumn, hstrip, b.case.lower_ascii _ hascii, hkey]

theorem isFieldName_name (case : TextCase) (c : Column) : isFieldName case (Text.ofString c.name) = true := by
  obtain ⟨hascii, hstrip, hkey, -⟩ := c.name_key
  rw [isFieldName, hstrip, case.lower_ascii _ hascii, hkey]
  rfl

theorem Column.isNot_name (b : Builtins F) (c : Column) (position : Nat) :
    (⟨.word, Text.ofString c.name, position⟩ : Token).isNot b = false := by
  obtain ⟨hascii, -, -, hnot, hdash⟩ := c.name_key
  simp only [Token.isNot, Token.isKeyword, b.case.upper_ascii _ hascii]
  simp [hnot, hdash]

/-- A column and an operator before a quoted value. -/
theorem Spells.field {case : TextCase} {position : Nat} {c : Column} {op : Operator} {text : Text} {ts : List Token}
    (hquote : text.head? = some (chr '"'))
    (h : Spells case (position + (Text.ofString c.name).length + (Text.ofString op.text).length) text ts) :
    Spells case position (Text.ofString c.name ++ Text.ofString op.text ++ text)
      (⟨.word, Text.ofString c.name, position⟩ ::
        ⟨.op, Text.ofString op.text, position + (Text.ofString c.name).length⟩ :: ts) where
  lexes := by
    obtain ⟨value, rfl⟩ := List.head?_eq_some_iff.1 hquote
    intro rest
    obtain ⟨hne, hchars, hlen⟩ := c.name_word
    have hop : ∀ d ∈ (Text.ofString op.text ++ chr '"' :: value ++ rest).head?, isWordChar d = false := by
      cases op <;> (rintro d ⟨⟩; decide)
    rw [List.append_assoc, List.append_assoc, ← List.append_assoc (Text.ofString op.text),
      lex_token (matchToken_word hne (List.all_eq_true.1 hchars) (Nat.le_trans hlen (by decide)) hop), List.append_assoc,
      List.cons_append, lex_token (matchToken_operator op _), ← List.cons_append, h.lexes]
    simp only [List.length_append, List.length_cons, Nat.add_assoc]
    cases lex _ rest <;> rfl
  unmerged := by
    refine List.isChain_cons_cons.2 ⟨by simp [isValueColon, isFieldName_name], ?_⟩
    refine List.isChain_cons.2 ⟨fun t ht => isValueColon_of_ne (h.head t ht), h.unmerged⟩
  head := by
    rintro t ⟨⟩
    simp

/-- Quoted values between commas. -/
theorem Spells.values (case : TextCase) {values : List Text} (hne : values ≠ []) (hplain : ∀ v ∈ values, PlainValue v) :
    ∀ position, ∃ ts, Spells case position (joinTexts (Text.ofString ",") (values.map Search.quote)) ts ∧
      Values ts values := by
  induction values with
  | nil => exact absurd rfl hne
  | cons value values ih =>
    intro position
    obtain ⟨hvalue, hrest⟩ := List.forall_mem_cons.1 hplain
    have hquote : Spells case position (Search.quote value) [⟨.quoted, value, position⟩] := .quote hvalue
    cases values with
    | nil => exact ⟨_, hquote, .one rfl hvalue.2.2⟩
    | cons value' values =>
      have hcomma : Spells case (position + (Search.quote value).length) [chr ',']
          [⟨.comma, [chr ','], position + (Search.quote value).length⟩] := .punctuation (by simp)
      obtain ⟨ts, hts, hvalues⟩ := ih (by simp) hrest (position + (Search.quote value ++ Text.ofString ",").length)
      exact ⟨_, (hquote.append hcomma).append hts, .cons rfl hvalue.2.2 rfl hvalues⟩

theorem joinTexts_quote_head {sep : Text} {values : List Text} (hne : values ≠ []) :
    (joinTexts sep (values.map quote)).head? = some (chr '"') := by
  rcases values with _ | ⟨value, _ | ⟨value', values⟩⟩
  · exact absurd rfl hne
  · rfl
  · rfl

/-! ## Written trees -/

/-- At a position, a text is read as tokens that derive these trees. -/
def Written (b : Builtins F) (position : Nat) (text : Text) (l : Level) (ns : List (Node F)) (d k : Nat) : Prop :=
  ∃ tokens, Spells b.case position text tokens ∧ Derives b l tokens ns d k

theorem Operator.ofText_text (op : Operator) : Operator.ofText (Text.ofString op.text) = some op := by
  cases op <;> rfl

/-- A comparison of a text column that builds to a leaf. -/
theorem Written.comparison {b : Builtins F} {position : Nat} {column : Column} {op : Operator} {values : List Text}
    {c : Comparison F} (hne : values ≠ []) (hplain : ∀ v ∈ values, PlainValue v) (hfew : values.length ≤ maxInValues)
    (hbuild : buildComparison b column (Text.ofString op.text) values = .ok c) :
    Written b position (Text.ofString column.name ++ Text.ofString op.text ++
      joinTexts (Text.ofString ",") (values.map quote)) .term [.comparison c] 0 1 := by
  obtain ⟨ts, hts, hvalues⟩ := Spells.values b.case hne hplain
    (position + (Text.ofString column.name).length + (Text.ofString op.text).length)
  exact ⟨_, .field (joinTexts_quote_head hne) hts,
    .comparison rfl (column.isNot_name b position) rfl (resolveColumn_name b column) hvalues hfew hbuild⟩

theorem Written.freeText {b : Builtins F} {position : Nat} {value : Text} (h : PlainValue value) :
    Written b position (quote value) .term [.freeText value] 0 1 :=
  ⟨_, .quote h, .freeText rfl (by simp [Token.isNot, Token.isKeyword]) h.2.2⟩

theorem keyword_upper (b : Builtins F) {word : String} (h : word ∈ ["NOT", "AND", "OR"]) (position : Nat) :
    (⟨.word, Text.ofString word, position⟩ : Token).isKeyword b word = true := by
  have hupper : ∀ w ∈ ["NOT", "AND", "OR"], (Text.ofString w).isAscii = true ∧
      (Text.ofString w).map Text.asciiUpper = Text.ofString w := by decide
  obtain ⟨hascii, heq⟩ := hupper word h
  simp [Token.isKeyword, b.case.upper_ascii _ hascii, heq]

theorem Written.not {b : Builtins F} {position : Nat} {text : Text} {n : Node F} {d k : Nat}
    (h : ∀ p, Written b p text .term [n] d k) :
    Written b position (Text.ofString "NOT" ++ (Text.ofString " " ++ text)) .term [.not n] d (k + 1) := by
  have hkeyword : Spells b.case position (Text.ofString "NOT" ++ Text.ofString " ") _ := .keyword (by simp)
  obtain ⟨tokens, hspells, hd⟩ := h (position + (Text.ofString "NOT" ++ Text.ofString " ").length)
  rw [← List.append_assoc]
  refine ⟨_, hkeyword.append hspells, .not ?_ hd⟩
  rw [Token.isNot, keyword_upper b (by simp), Bool.true_or]

theorem Written.group {b : Builtins F} {position : Nat} {text : Text} {ns : List (Node F)} {d k : Nat}
    (h : ∀ p, Written b p text .disj ns d k) :
    Written b position (parenthesize true text) .term [collapse .or ns] (d + 1) k := by
  have hleft : Spells b.case position [chr '('] [⟨.lparen, [chr '('], position⟩] := .punctuation (by simp)
  obtain ⟨tokens, hspells, hd⟩ := h (position + 1)
  have hright : Spells b.case (position + 1 + text.length) [chr ')'] [⟨.rparen, [chr ')'], position + 1 + text.length⟩] :=
    .punctuation (by simp)
  exact ⟨_, hleft.append (hspells.append hright), .group rfl rfl hd⟩

theorem Written.conj {b : Builtins F} {position : Nat} {text : Text} {n : Node F} {d k : Nat}
    (h : Written b position text .term [n] d k) : Written b position text .disj [n] d k := by
  obtain ⟨tokens, hspells, hd⟩ := h
  exact ⟨tokens, hspells, .conj (.one hd)⟩

/-- The level a row of terms has. -/
def Connective.level : Connective → Level
  | .and => .conj
  | .or => .disj

/-- What stands between two terms. -/
def Connective.separator (op : Connective) : Text :=
  Text.ofString " " ++ (Text.ofString op.keyword ++ Text.ofString " ")

theorem Written.single {b : Builtins F} {position : Nat} {text : Text} {n : Node F} {d k : Nat} (op : Connective)
    (h : Written b position text .term [n] d k) : Written b position text op.level [n] d k := by
  obtain ⟨tokens, hspells, hd⟩ := h
  cases op with
  | and => exact ⟨tokens, hspells, .one hd⟩
  | or => exact ⟨tokens, hspells, .conj (.one hd)⟩

/-- A term before a row of them. -/
theorem Written.link {b : Builtins F} {position : Nat} {t u : Text} {n : Node F} {ns : List (Node F)} {d d' k k' : Nat}
    (op : Connective) (hterm : Written b position t .term [n] d k) (hrow : ∀ p, Written b p u op.level ns d' k') :
    Written b position (t ++ op.separator ++ u) op.level (n :: ns) (max d d') (k + k') := by
  obtain ⟨ts, ht, hdt⟩ := hterm
  have hword : op.keyword ∈ ["NOT", "AND", "OR"] := by cases op <;> simp [Connective.keyword]
  have hseparator : Spells b.case (position + t.length) op.separator
      [⟨.word, Text.ofString op.keyword, position + t.length + (Text.ofString " ").length⟩] :=
    (Spells.space b.case _).append (.keyword hword)
  obtain ⟨us, hu, hdu⟩ := hrow (position + (t ++ op.separator).length)
  have hkeyword := keyword_upper b hword (position + t.length + (Text.ofString " ").length)
  refine ⟨_, (ht.append hseparator).append hu, ?_⟩
  rw [List.append_assoc, List.singleton_append]
  cases op with
  | and => exact .and hdt hkeyword hdu
  | or => exact .or (.one hdt) hkeyword hdu

/-- The children of a `boolOp`, if each is written as a term. -/
theorem Written.row {b : Builtins F} {wrapNot : Bool} (op : Connective) {ns : List (Node F)} (hne : ns ≠ [])
    (h : ∀ n ∈ ns, ∀ p, Written b p (parenthesize (n.isCompound wrapNot) (n.render wrapNot)) .term [n]
      (n.depth wrapNot + (n.isCompound wrapNot).toNat) n.nodes) :
    ∀ p, Written b p (joinTexts op.separator (renderChildren wrapNot ns)) op.level ns (depthAll wrapNot ns)
      (nodesAll ns) := by
  induction ns with
  | nil => exact absurd rfl hne
  | cons n ns ih =>
    intro p
    obtain ⟨hn, hns⟩ := List.forall_mem_cons.1 h
    cases ns with
    | nil =>
      rw [renderChildren, renderChildren, joinTexts, depthAll, depthAll, nodesAll, nodesAll, Nat.max_zero, Nat.add_zero]
      exact (hn p).single op
    | cons m ns =>
      rw [renderChildren, depthAll, nodesAll]
      exact (hn p).link op (ih (by simp) hns)

theorem collapse_several (op : Connective) {ns : List (Node F)} (h : 2 ≤ ns.length) : collapse op ns = .boolOp op ns := by
  rcases ns with _ | ⟨n, _ | ⟨m, ns⟩⟩
  · rfl
  · simp at h
  · rfl

/-- A tree that is no row of terms is written as one. -/
def Node.isTerm : Node F → Bool
  | .boolOp _ _ => false
  | _ => true

/-- A tree's text derives the tree: as an expression, and as a term if it is one. -/
def WrittenTree (b : Builtins F) (wrapNot : Bool) (n : Node F) : Prop :=
  (∃ ns, collapse .or ns = n ∧ ∀ p, Written b p (n.render wrapNot) .disj ns (n.depth wrapNot) n.nodes) ∧
  (n.isTerm = true → ∀ p, Written b p (n.render wrapNot) .term [n] (n.depth wrapNot) n.nodes)

theorem WrittenTree.of_term {b : Builtins F} {wrapNot : Bool} {n : Node F}
    (h : ∀ p, Written b p (n.render wrapNot) .term [n] (n.depth wrapNot) n.nodes) : WrittenTree b wrapNot n :=
  ⟨⟨[n], rfl, fun p => (h p).conj⟩, fun _ => h⟩

/-- A child is a term: what is no term is in parentheses. -/
theorem WrittenTree.child {b : Builtins F} {wrapNot : Bool} {n : Node F} (h : WrittenTree b wrapNot n) (p : Nat) :
    Written b p (parenthesize (n.isCompound wrapNot) (n.render wrapNot)) .term [n]
      (n.depth wrapNot + (n.isCompound wrapNot).toNat) n.nodes := by
  obtain ⟨⟨ns, hns, hdisj⟩, hterm⟩ := h
  cases hcompound : n.isCompound wrapNot with
  | true =>
    have hgroup : Written b p (parenthesize true (n.render wrapNot)) .term [collapse .or ns] _ _ := .group hdisj
    rwa [hns] at hgroup
  | false =>
    refine hterm ?_ p
    cases n <;> first | rfl | cases hcompound

/-- Every tree of the class is written as tokens that derive it. -/
theorem Renderable.written (b : Builtins F) (wrapNot : Bool) {n : Node F} (h : Renderable n) : WrittenTree b wrapNot n := by
  induction h with
  | @comparison column operator value string notTilde plain =>
    refine .of_term fun p => ?_
    refine @Written.comparison _ _ _ _ _ [value] _ (by simp) (by simpa using plain) (by simp [maxInValues]) ?_
    rw [buildComparison, Operator.ofText_text]
    dsimp only
    rw [if_neg (by simp [notTilde, plain.1]), coerce_string string]
    rfl
  | @list column values string several few plain =>
    refine .of_term fun p => ?_
    have hrender : (Comparison.mk column .eq none (values.map .text) : Comparison F).render =
        Text.ofString column.name ++ Text.ofString Operator.eq.text ++
          joinTexts (Text.ofString ",") (values.map quote) := by
      simp [Comparison.render, Value.written, Function.comp_def]
    rw [Node.render, hrender]
    refine Written.comparison (by rintro rfl; simp at several) plain few ?_
    rw [buildComparison, Operator.ofText_text]
    rcases values with _ | ⟨raw, _ | ⟨raw', rest⟩⟩
    · simp at several
    · simp at several
    · dsimp only
      rw [if_pos (by rfl), coerceAll_string string]
      rfl
  | @freeText value plain => exact .of_term fun p => .freeText plain
  | @not child _ ih =>
    refine .of_term fun p => ?_
    exact .not ih.child
  | @boolOp op children several _ ih =>
    refine ⟨?_, by rintro ⟨⟩⟩
    have hne : children ≠ [] := by rintro rfl; simp at several
    have hrow := Written.row (b := b) op hne fun n hn => (ih n hn).child
    cases op with
    | and =>
      refine ⟨[.boolOp .and children], rfl, fun p => ?_⟩
      obtain ⟨tokens, hspells, hd⟩ := hrow p
      have hdisj := Derives.conj hd
      rw [collapse_several .and several] at hdisj
      exact ⟨tokens, hspells, hdisj⟩
    | or => exact ⟨children, collapse_several .or several, hrow⟩

/-- A tree within the limits, written out, is tokenized and parsed to itself. -/
theorem render_parse (b : Builtins F) (wrapNot : Bool) (n : Node F) (h : Renderable n) (hnodes : n.nodes ≤ maxNodes)
    (hdepth : n.depth wrapNot ≤ maxDepth) (hlength : (n.render wrapNot).length ≤ maxQueryLength) :
    (do
      let tokens ← tokenize b.case (n.render wrapNot)
      parse b tokens) = .ok (some n) := by
  obtain ⟨⟨ns, hns, hwritten⟩, -⟩ := h.written b wrapNot
  obtain ⟨tokens, hspells, hd⟩ := hwritten 0
  have hlex : lex 0 (n.render wrapNot) = .ok tokens := by
    have := hspells.lexes []
    rwa [List.append_nil, lex_nil, Except.map, List.append_nil] at this
  rw [tokenize, if_neg (by omega), hlex]
  simp only [Except.map, bind, Except.bind]
  rw [mergeValueColons_unmerged hspells.unmerged, hd.parse hdepth hnodes, hns]

/-- `level="ERROR" AND (NOT "time out")` -/
theorem render_parse_and :
    let n : Node Unit := .boolOp .and [.comparison { column := .level, operator := .eq, value := some (.text (Text.ofString "ERROR")) },
      .not (.freeText (Text.ofString "time out"))]
    n.nodes ≤ maxNodes ∧ n.depth true ≤ maxDepth ∧ (n.render true).length ≤ maxQueryLength ∧
    (do
      let tokens ← tokenize textBuiltins.case (n.render true)
      parse textBuiltins tokens) = .ok (some n) := by
  intro n
  have hrenderable : Renderable n := by
    refine .boolOp (by simp) ?_
    simp only [List.forall_mem_cons]
    refine ⟨.comparison rfl (by simp) ?_, .not (.freeText ?_), by simp⟩ <;>
      exact ⟨by decide, by decide, by decide⟩
  exact ⟨by decide, by decide, by decide,
    render_parse textBuiltins true n hrenderable (by decide) (by decide) (by decide)⟩

end LogAnalytics.Search
