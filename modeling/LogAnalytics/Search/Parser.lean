import LogAnalytics.Search.Tokenizer
/-!
# The parser

`QueryParser`, a recursive descent over the tokens, with the building blocks a comparison is
made by. The functions call each other on shorter and shorter token lists; the bound on their
recursion (`fuel`) is one `parse` never reaches.
-/

namespace LogAnalytics.Search

variable {F : Type}

/-- `MAX_NODES` -/
def maxNodes : Nat := 64

/-- `MAX_DEPTH` -/
def maxDepth : Nat := 8

/-- `MAX_IN_VALUES` -/
def maxInValues : Nat := 50

/-- What the parser uses of the standard library and of `timeutil`. -/
structure Builtins (F : Type) where
  case : TextCase
  /-- `int(value)`, unless it raises a `ValueError`. -/
  toInt : Text → Option Int
  /-- `float(value)` -/
  toFloat : Text → Option F
  parseTimestamp : Text → Except Exn (Option Clock)

/-! ## Building blocks -/

def resolveColumn (b : Builtins F) (name : Text) : Except SearchError Column :=
  match Column.ofKey (b.case.lower name.strip) with
  | some column => .ok column
  | none => .error (.syntaxError (.unknownField name))

/-- `_coerce` -/
def coerce (b : Builtins F) (column : Column) (value : Text) : Except SearchError (Value F) :=
  if column.isNumeric then
    match if column = .responseTimeMs then (b.toFloat value).map .float else (b.toInt value).map .int with
    | some v => .ok v
    | none => .error (.syntaxError (.notANumber column value))
  else if column.isTimestamp then
    match b.parseTimestamp value with
    | .error exn => .error (.raised exn)
    | .ok none => .error (.syntaxError (.notATimestamp column value))
    | .ok (some parsed) => .ok (.timestamp parsed)
  else .ok (.text value)

/-- `_escape_like` -/
def escapeLike (value : Text) : Text :=
  value.flatMap fun c => if c = chr '\\' ∨ c = chr '%' ∨ c = chr '_' then [chr '\\', c] else [c]

/-- `_to_like_pattern` -/
def toLikePattern (value : Text) : Text :=
  if chr '*' ∈ value then (escapeLike value).map fun c => if c = chr '*' then chr '%' else c
  else chr '%' :: escapeLike value ++ [chr '%']

def coerceAll (b : Builtins F) (column : Column) : List Text → Except SearchError (List (Value F))
  | [] => .ok []
  | value :: values => do
    let v ← coerce b column value
    let vs ← coerceAll b column values
    .ok (v :: vs)

/-- `build_comparison`; it is never called with no value. -/
def buildComparison (b : Builtins F) (column : Column) (operator : Text) (values : List Text) :
    Except SearchError (Comparison F) :=
  match Operator.ofText operator with
  | none => .error (.syntaxError (.unsupportedOperator operator))
  | some op =>
    match values with
    | [] => .error (.raised ⟨.other "IndexError", "list index out of range"⟩)
    | [raw] =>
      if op = .tilde ∨ (chr '*' ∈ raw ∧ column.isNumeric = false) then
        .ok { column := column, operator := .tilde, value := some (.text (toLikePattern raw)) }
      else do
        let v ← coerce b column raw
        .ok { column := column, operator := op, value := some v }
    | values =>
      if op.takesList then do
        let vs ← coerceAll b column values
        .ok { column := column, operator := .eq, value := none, values := vs }
      else .error (.syntaxError .listOperator)

/-! ## The descent -/

/-- The tokens from the index on, and the nodes counted so far. -/
structure ParserState where
  tokens : List Token
  nodes : Nat := 0

/-- `_count_node` -/
def countNode (s : ParserState) : Except SearchError ParserState :=
  if maxNodes < s.nodes + 1 then .error (.syntaxError .tooComplex) else .ok { s with nodes := s.nodes + 1 }

/-- A bare word that is this keyword in any case. -/
def Token.isKeyword (b : Builtins F) (keyword : String) (t : Token) : Bool :=
  t.kind = .word && b.case.upper t.value = Text.ofString keyword

/-- `_is_keyword` -/
def isKeyword (b : Builtins F) (keyword : String) (tokens : List Token) : Bool :=
  tokens.head?.any (·.isKeyword b keyword)

/-- A token that can be a value or free text. -/
def Token.isValue (t : Token) : Bool := t.kind = .word || t.kind = .quoted

/-- `_parse_values`, after `count` values. -/
def parseValues : (count : Nat) → List Token → Except SearchError (List Text × List Token)
  | _, [] => .error (.syntaxError .noValue)
  | count, [t] =>
    if t.isValue = false then .error (.syntaxError .noValue)
    else if maxValueLength < t.value.length then .error (.syntaxError .valueTooLong)
    else if maxInValues < count + 1 then .error (.syntaxError .tooManyValues)
    else .ok ([t.value], [])
  | count, t :: following :: rest =>
    if t.isValue = false then .error (.syntaxError .noValue)
    else if maxValueLength < t.value.length then .error (.syntaxError .valueTooLong)
    else if maxInValues < count + 1 then .error (.syntaxError .tooManyValues)
    else if following.kind = .comma then
      (parseValues (count + 1) rest).map fun (values, rest) => (t.value :: values, rest)
    else .ok ([t.value], following :: rest)

/-- The end of `_parse_comparison` where no operator follows. -/
def parseFreeText (t : Token) (s : ParserState) : Except SearchError (Node F × ParserState) :=
  if t.isValue = false then .error (.syntaxError (.unexpected t.value))
  else if maxValueLength < t.value.length then .error (.syntaxError .valueTooLong)
  else .ok (.freeText t.value, s)

/-- `_parse_comparison` -/
def parseComparison (b : Builtins F) (s : ParserState) : Except SearchError (Node F × ParserState) :=
  match s.tokens with
  | [] => .error (.syntaxError .ended)
  | t :: rest => do
    let s ← countNode { s with tokens := rest }
    match rest with
    | [] => parseFreeText t s
    | op :: rest =>
      if op.kind = .op then do
        let column ← resolveColumn b t.value
        let (values, rest) ← parseValues 0 rest
        let c ← buildComparison b column op.value values
        .ok (.comparison c, { s with tokens := rest })
      else parseFreeText t s

mutual

/-- `_parse_or` -/
def parseOr (b : Builtins F) : (fuel depth : Nat) → ParserState → Except SearchError (Node F × ParserState)
  | 0, _, _ => .error .outOfFuel
  | fuel + 1, depth, s =>
    if maxDepth < depth then .error (.syntaxError .tooDeep)
    else do
      let (n, s) ← parseAnd b fuel depth s
      let (ns, s) ← orLoop b fuel depth s
      .ok (collapse .or (n :: ns), s)

/-- The loop of `_parse_or`. -/
def orLoop (b : Builtins F) : (fuel depth : Nat) → ParserState → Except SearchError (List (Node F) × ParserState)
  | 0, _, _ => .error .outOfFuel
  | fuel + 1, depth, s =>
    if isKeyword b "OR" s.tokens then do
      let (n, s) ← parseAnd b fuel depth { s with tokens := s.tokens.tail }
      let (ns, s) ← orLoop b fuel depth s
      .ok (n :: ns, s)
    else .ok ([], s)

/-- `_parse_and` -/
def parseAnd (b : Builtins F) : (fuel depth : Nat) → ParserState → Except SearchError (Node F × ParserState)
  | 0, _, _ => .error .outOfFuel
  | fuel + 1, depth, s => do
    let (n, s) ← parseTerm b fuel depth s
    let (ns, s) ← andLoop b fuel depth s
    .ok (collapse .and (n :: ns), s)

/-- The loop of `_parse_and`: without a keyword, adjacent terms are connected too. -/
def andLoop (b : Builtins F) : (fuel depth : Nat) → ParserState → Except SearchError (List (Node F) × ParserState)
  | 0, _, _ => .error .outOfFuel
  | fuel + 1, depth, s =>
    if s.tokens.head?.all (·.kind = .rparen) || isKeyword b "OR" s.tokens then .ok ([], s)
    else do
      let s := if isKeyword b "AND" s.tokens then { s with tokens := s.tokens.tail } else s
      let (n, s) ← parseTerm b fuel depth s
      let (ns, s) ← andLoop b fuel depth s
      .ok (n :: ns, s)

/-- `_parse_term` -/
def parseTerm (b : Builtins F) : (fuel depth : Nat) → ParserState → Except SearchError (Node F × ParserState)
  | 0, _, _ => .error .outOfFuel
  | fuel + 1, depth, s =>
    if isKeyword b "NOT" s.tokens || isKeyword b "-" s.tokens then do
      let s ← countNode { s with tokens := s.tokens.tail }
      let (n, s) ← parseTerm b fuel depth s
      .ok (.not n, s)
    else
      match s.tokens with
      | [] => .error (.syntaxError .ended)
      | t :: rest =>
        if t.kind = .lparen then do
          let (n, s) ← parseOr b fuel (depth + 1) { s with tokens := rest }
          match s.tokens with
          | closing :: rest =>
            if closing.kind = .rparen then .ok (n, { s with tokens := rest })
            else .error (.syntaxError .unbalanced)
          | [] => .error (.syntaxError .unbalanced)
        else parseComparison b s

end

/-- Enough fuel for a token list. -/
def parseFuel (tokens : List Token) : Nat := 4 * tokens.length + 4

/-- `QueryParser(tokens).parse()` -/
def parse (b : Builtins F) (tokens : List Token) : Except SearchError (Option (Node F)) :=
  match tokens with
  | [] => .ok none
  | tokens =>
    match parseOr b (parseFuel tokens) 0 { tokens := tokens } with
    | .error e => .error e
    | .ok (n, s) =>
      match s.tokens with
      | [] => .ok (some n)
      | remaining :: _ => .error (.syntaxError (.unexpectedAt remaining.value remaining.position))

/-! ## The descent ends -/

/-- A step on the tokens `from_` raises only `E`; it leaves a suffix of them, of fewer than `k`. -/
def Advances {α : Type} (E : SearchError → Prop) (tokens : List Token) (k : Nat)
    (r : Except SearchError (α × ParserState)) : Prop :=
  (∀ e, r = .error e → E e) ∧ ∀ a s, r = .ok (a, s) → s.tokens <:+ tokens ∧ s.tokens.length < k

theorem Advances.error {α : Type} {E : SearchError → Prop} {tokens : List Token} {k : Nat} {e : SearchError} (h : E e) :
    Advances (α := α) E tokens k (.error e) := by
  refine ⟨?_, by rintro a s ⟨⟩⟩
  rintro e' ⟨⟩
  exact h

theorem Advances.ok {α : Type} {E : SearchError → Prop} {tokens : List Token} {k : Nat} {a : α} {s : ParserState}
    (hsuffix : s.tokens <:+ tokens) (hlt : s.tokens.length < k) : Advances E tokens k (.ok (a, s)) := by
  refine ⟨by rintro e ⟨⟩, ?_⟩
  rintro a' s' ⟨⟩
  exact ⟨hsuffix, hlt⟩

/-- One step after another. -/
theorem Advances.bind {α β : Type} {E : SearchError → Prop} {tokens : List Token} {j k : Nat}
    {r : Except SearchError (α × ParserState)} {f : α × ParserState → Except SearchError (β × ParserState)}
    (hr : Advances E tokens j r)
    (hf : ∀ a s, s.tokens <:+ tokens → s.tokens.length < j → Advances E tokens k (f (a, s))) :
    Advances E tokens k (r >>= f) := by
  cases r with
  | error e => exact Advances.error (hr.1 e rfl)
  | ok x =>
    obtain ⟨a, s⟩ := x
    obtain ⟨hsuffix, hlt⟩ := hr.2 a s rfl
    exact hf a s hsuffix hlt

theorem Advances.mono {α : Type} {E : SearchError → Prop} {tokens tokens' : List Token} {j k : Nat}
    {r : Except SearchError (α × ParserState)} (h : Advances E tokens j r) (hsuffix : tokens <:+ tokens') (hle : j ≤ k) :
    Advances E tokens' k r :=
  ⟨h.1, fun a s hr => ⟨(h.2 a s hr).1.trans hsuffix, Nat.lt_of_lt_of_le (h.2 a s hr).2 hle⟩⟩

/-- What building the comparisons of a token list can raise. -/
def Builds (b : Builtins F) (E : SearchError → Prop) (tokens : List Token) : Prop :=
  ∀ t op rest, t :: op :: rest <:+ tokens → op.kind = .op → ∀ column, resolveColumn b t.value = .ok column →
    ∀ values e, values ≠ [] → buildComparison b column op.value values = .error e → E e

theorem Builds.suffix {b : Builtins F} {E : SearchError → Prop} {tokens tokens' : List Token} (h : Builds b E tokens)
    (hsuffix : tokens' <:+ tokens) : Builds b E tokens' :=
  fun t op rest ht => h t op rest (ht.trans hsuffix)

theorem parseValues_advances {E : SearchError → Prop} (hsyn : ∀ e, E (.syntaxError e)) (count : Nat)
    (tokens : List Token) :
    (∀ e, parseValues count tokens = .error e → E e) ∧
    ∀ values rest, parseValues count tokens = .ok (values, rest) →
      values ≠ [] ∧ rest <:+ tokens ∧ rest.length < tokens.length := by
  induction count, tokens using parseValues.induct with
  | case1 count =>
    refine ⟨?_, by rintro values rest ⟨⟩⟩
    rintro e ⟨⟩
    exact hsyn _
  | case2 count t h =>
    rw [parseValues, if_pos h]
    exact ⟨by rintro e ⟨⟩; exact hsyn _, by rintro values rest ⟨⟩⟩
  | case3 count t h h' =>
    rw [parseValues, if_neg h, if_pos h']
    exact ⟨by rintro e ⟨⟩; exact hsyn _, by rintro values rest ⟨⟩⟩
  | case4 count t h h' h'' =>
    rw [parseValues, if_neg h, if_neg h', if_pos h'']
    exact ⟨by rintro e ⟨⟩; exact hsyn _, by rintro values rest ⟨⟩⟩
  | case5 count t h h' h'' =>
    rw [parseValues, if_neg h, if_neg h', if_neg h'']
    exact ⟨by rintro e ⟨⟩, by rintro values rest ⟨⟩; exact ⟨by simp, List.nil_suffix, by simp⟩⟩
  | case6 count t following rest h =>
    rw [parseValues, if_pos h]
    exact ⟨by rintro e ⟨⟩; exact hsyn _, by rintro values rest ⟨⟩⟩
  | case7 count t following rest h h' =>
    rw [parseValues, if_neg h, if_pos h']
    exact ⟨by rintro e ⟨⟩; exact hsyn _, by rintro values rest ⟨⟩⟩
  | case8 count t following rest h h' h'' =>
    rw [parseValues, if_neg h, if_neg h', if_pos h'']
    exact ⟨by rintro e ⟨⟩; exact hsyn _, by rintro values rest ⟨⟩⟩
  | case9 count t following rest h h' h'' hcomma ih =>
    rw [parseValues, if_neg h, if_neg h', if_neg h'', if_pos hcomma]
    cases hr : parseValues (count + 1) rest with
    | error e =>
      refine ⟨?_, by rintro values rest ⟨⟩⟩
      rintro e' ⟨⟩
      exact ih.1 e hr
    | ok x =>
      obtain ⟨values, left⟩ := x
      obtain ⟨-, hsuffix, hlt⟩ := ih.2 values left hr
      refine ⟨by rintro e ⟨⟩, ?_⟩
      rintro values' left' ⟨⟩
      refine ⟨by simp, hsuffix.trans ⟨[t, following], rfl⟩, ?_⟩
      simp only [List.length_cons]
      omega
  | case10 count t following rest h h' h'' hcomma =>
    rw [parseValues, if_neg h, if_neg h', if_neg h'', if_neg hcomma]
    exact ⟨by rintro e ⟨⟩, by rintro values rest ⟨⟩; exact ⟨by simp, ⟨[t], rfl⟩, by simp⟩⟩

theorem parseFreeText_advances {E : SearchError → Prop} (hsyn : ∀ e, E (.syntaxError e)) (t : Token) (s : ParserState)
    {tokens : List Token} {k : Nat} (hsuffix : s.tokens <:+ tokens) (hlt : s.tokens.length < k) :
    Advances E tokens k (parseFreeText (F := F) t s) := by
  unfold parseFreeText
  split
  · exact Advances.error (hsyn _)
  · split
    · exact Advances.error (hsyn _)
    · exact Advances.ok hsuffix hlt

theorem parseComparison_advances {b : Builtins F} {E : SearchError → Prop} (hsyn : ∀ e, E (.syntaxError e))
    (s : ParserState) (hbuild : Builds b E s.tokens) :
    Advances E s.tokens s.tokens.length (parseComparison b s) := by
  unfold parseComparison
  split
  · exact Advances.error (hsyn _)
  · next t rest ht =>
    have hsuffix : rest <:+ s.tokens := ht ▸ List.suffix_cons t rest
    have hlt : rest.length < s.tokens.length := by rw [ht]; simp
    unfold countNode
    split
    · exact Advances.error (hsyn _)
    · cases rest with
      | nil => exact parseFreeText_advances hsyn t _ hsuffix hlt
      | cons op rest =>
        simp only [bind, Except.bind]
        split
        · next hop =>
          cases hcolumn : resolveColumn b t.value with
          | error e =>
            refine Advances.error ?_
            unfold resolveColumn at hcolumn
            split at hcolumn
            · cases hcolumn
            · cases hcolumn; exact hsyn _
          | ok column =>
            dsimp only
            obtain ⟨hverr, hvok⟩ := parseValues_advances hsyn 0 rest
            cases hvalues : parseValues 0 rest with
            | error e => exact Advances.error (hverr e hvalues)
            | ok x =>
              obtain ⟨values, left⟩ := x
              obtain ⟨hne, hleft, hleftlt⟩ := hvok values left hvalues
              dsimp only
              cases hc : buildComparison b column op.value values with
              | error e =>
                have hin : t :: op :: rest <:+ s.tokens := ht ▸ List.suffix_rfl
                exact Advances.error (hbuild t op rest hin hop column hcolumn values e hne hc)
              | ok c =>
                refine Advances.ok (hleft.trans ((List.suffix_cons op rest).trans hsuffix)) ?_
                simp only [List.length_cons] at hlt
                exact Nat.lt_trans hleftlt (by omega)
        · exact parseFreeText_advances hsyn t _ hsuffix hlt

theorem isKeyword_cons {b : Builtins F} {keyword : String} {tokens : List Token} (h : isKeyword b keyword tokens = true) :
    ∃ t rest, tokens = t :: rest ∧ t.isKeyword b keyword = true := by
  cases tokens with
  | nil => cases h
  | cons t rest => exact ⟨t, rest, rfl, h⟩

/-- With this much fuel no function of the descent raises `outOfFuel`, and each but the loops consumes a token. -/
structure DescentAdvances (b : Builtins F) (E : SearchError → Prop) (fuel depth : Nat) (s : ParserState) : Prop where
  term : 4 * s.tokens.length + 1 ≤ fuel → Advances E s.tokens s.tokens.length (parseTerm b fuel depth s)
  and : 4 * s.tokens.length + 2 ≤ fuel → Advances E s.tokens s.tokens.length (parseAnd b fuel depth s)
  or : 4 * s.tokens.length + 3 ≤ fuel → Advances E s.tokens s.tokens.length (parseOr b fuel depth s)
  andLoop : 4 * s.tokens.length + 2 ≤ fuel → Advances E s.tokens (s.tokens.length + 1) (andLoop b fuel depth s)
  orLoop : 4 * s.tokens.length + 1 ≤ fuel → Advances E s.tokens (s.tokens.length + 1) (orLoop b fuel depth s)

section

variable {b : Builtins F} {E : SearchError → Prop} {fuel : Nat} {s : ParserState}
  (ih : ∀ (depth : Nat) (s : ParserState), Builds b E s.tokens → DescentAdvances b E fuel depth s)
  (hbuild : Builds b E s.tokens) (depth : Nat)
include ih hbuild

/-- The loops go on behind what was consumed. -/
theorem loops_advance {s' : ParserState} (hsuffix : s'.tokens <:+ s.tokens) (hlt : s'.tokens.length < s.tokens.length)
    (hfuel : 4 * s.tokens.length ≤ fuel + 2) :
    Advances E s.tokens s.tokens.length (andLoop b fuel depth s') ∧
      Advances E s.tokens s.tokens.length (orLoop b fuel depth s') := by
  have hloops := ih depth s' (hbuild.suffix hsuffix)
  exact ⟨(hloops.andLoop (by omega)).mono hsuffix hlt, (hloops.orLoop (by omega)).mono hsuffix hlt⟩

theorem parseTerm_advances (hsyn : ∀ e, E (.syntaxError e)) (hfuel : 4 * s.tokens.length + 1 ≤ fuel + 1) :
    Advances E s.tokens s.tokens.length (parseTerm b (fuel + 1) depth s) := by
  rw [parseTerm]
  split
  · next hkw =>
    -- the keyword is consumed first
    have htail : s.tokens.tail.length < s.tokens.length := by
      rw [Bool.or_eq_true] at hkw
      rcases hkw with hkw | hkw <;> obtain ⟨t, rest, ht, -⟩ := isKeyword_cons hkw <;> rw [ht] <;> simp
    have hterm := ((ih depth ⟨s.tokens.tail, s.nodes + 1⟩ (hbuild.suffix (List.tail_suffix _))).term
      (by dsimp only; omega)).mono (List.tail_suffix s.tokens) (Nat.le_of_lt htail)
    unfold countNode
    split
    · exact Advances.error (hsyn _)
    · exact hterm.bind fun n s' hsuffix hlt => Advances.ok hsuffix (by omega)
  · split
    · exact Advances.error (hsyn _)
    · next t rest ht =>
      split
      · have hsuffix : rest <:+ s.tokens := ht ▸ List.suffix_cons t rest
        have hlen : rest.length < s.tokens.length := by rw [ht]; simp
        have hor := ((ih (depth + 1) ⟨rest, s.nodes⟩ (hbuild.suffix hsuffix)).or
          (by dsimp only; omega)).mono hsuffix (Nat.le_of_lt hlen)
        refine hor.bind fun n s' hs' hlt => ?_
        dsimp only
        split
        · next closing left hclosing =>
          split
          · refine Advances.ok ((hclosing ▸ List.suffix_cons closing left).trans hs') ?_
            have := congrArg List.length hclosing
            simp only [List.length_cons] at this
            dsimp only
            omega
          · exact Advances.error (hsyn _)
        · exact Advances.error (hsyn _)
      · exact parseComparison_advances hsyn s hbuild

theorem parseAnd_advances (hfuel : 4 * s.tokens.length + 2 ≤ fuel + 1) :
    Advances E s.tokens s.tokens.length (parseAnd b (fuel + 1) depth s) := by
  rw [parseAnd]
  refine ((ih depth s hbuild).term (by omega)).bind fun n s' hsuffix hlt => ?_
  exact (loops_advance ih hbuild depth hsuffix hlt (by omega)).1.bind fun ns s'' hsuffix' hlt' => Advances.ok hsuffix' hlt'

theorem parseOr_advances (hsyn : ∀ e, E (.syntaxError e)) (hfuel : 4 * s.tokens.length + 3 ≤ fuel + 1) :
    Advances E s.tokens s.tokens.length (parseOr b (fuel + 1) depth s) := by
  rw [parseOr]
  split
  · exact Advances.error (hsyn _)
  · refine ((ih depth s hbuild).and (by omega)).bind fun n s' hsuffix hlt => ?_
    exact (loops_advance ih hbuild depth hsuffix hlt (by omega)).2.bind fun ns s'' hsuffix' hlt' => Advances.ok hsuffix' hlt'

theorem andLoop_advances (hfuel : 4 * s.tokens.length + 2 ≤ fuel + 1) :
    Advances E s.tokens (s.tokens.length + 1) (andLoop b (fuel + 1) depth s) := by
  rw [andLoop]
  split
  · exact Advances.ok List.suffix_rfl (Nat.lt_succ_self _)
  · next hstop =>
    have hne : s.tokens ≠ [] := by
      intro hnil
      rw [hnil] at hstop
      exact hstop rfl
    have hpos := List.length_pos_iff.2 hne
    obtain ⟨s₁, hs₁, hsuffix, hlen⟩ : ∃ s₁ : ParserState,
        s₁ = (if isKeyword b "AND" s.tokens then { s with tokens := s.tokens.tail } else s) ∧
          s₁.tokens <:+ s.tokens ∧ s₁.tokens.length ≤ s.tokens.length := by
      refine ⟨_, rfl, ?_⟩
      split
      · exact ⟨List.tail_suffix _, (List.tail_suffix _).length_le⟩
      · exact ⟨List.suffix_rfl, le_refl _⟩
    rw [← hs₁]
    have hterm := ((ih depth s₁ (hbuild.suffix hsuffix)).term (by omega)).mono hsuffix hlen
    refine hterm.bind fun n s' hsuffix' hlt => ?_
    exact (loops_advance ih hbuild depth hsuffix' hlt (by omega)).1.bind fun ns s'' hsuffix'' hlt' =>
      Advances.ok hsuffix'' (Nat.lt_succ_of_lt hlt')

theorem orLoop_advances (hfuel : 4 * s.tokens.length + 1 ≤ fuel + 1) :
    Advances E s.tokens (s.tokens.length + 1) (orLoop b (fuel + 1) depth s) := by
  rw [orLoop]
  split
  · next hkw =>
    obtain ⟨t, rest, ht, -⟩ := isKeyword_cons hkw
    have hlen : s.tokens.tail.length < s.tokens.length := by rw [ht]; simp
    have hand := ((ih depth ⟨s.tokens.tail, s.nodes⟩ (hbuild.suffix (List.tail_suffix _))).and
      (by dsimp only; omega)).mono (List.tail_suffix s.tokens) (Nat.le_of_lt hlen)
    refine hand.bind fun n s' hsuffix hlt => ?_
    exact (loops_advance ih hbuild depth hsuffix hlt (by omega)).2.bind fun ns s'' hsuffix' hlt' =>
      Advances.ok hsuffix' (Nat.lt_succ_of_lt hlt')
  · exact Advances.ok List.suffix_rfl (Nat.lt_succ_self _)

end

theorem descent_advances {b : Builtins F} {E : SearchError → Prop} (hsyn : ∀ e, E (.syntaxError e)) (fuel : Nat) :
    ∀ (depth : Nat) (s : ParserState), Builds b E s.tokens → DescentAdvances b E fuel depth s := by
  induction fuel with
  | zero => intro depth s _; constructor <;> intro h <;> omega
  | succ fuel ih =>
    intro depth s hbuild
    exact {
      term := parseTerm_advances ih hbuild depth hsyn
      and := parseAnd_advances ih hbuild depth
      or := parseOr_advances ih hbuild depth hsyn
      andLoop := andLoop_advances ih hbuild depth
      orLoop := orLoop_advances ih hbuild depth }

/-- Every error of the parser is one of those `E` that building a comparison can raise. -/
theorem parse_error {b : Builtins F} {E : SearchError → Prop} (hsyn : ∀ e, E (.syntaxError e)) {tokens : List Token}
    (hbuild : Builds b E tokens) {e : SearchError} (h : parse b tokens = .error e) : E e := by
  cases tokens with
  | nil => cases h
  | cons t rest =>
    have hor := (descent_advances hsyn (parseFuel (t :: rest)) 0 ⟨t :: rest, 0⟩ hbuild).or (Nat.le_succ _)
    unfold parse at h
    dsimp only at h
    cases hr : parseOr b (parseFuel (t :: rest)) 0 ⟨t :: rest, 0⟩ with
    | error e' =>
      rw [hr] at h
      cases h
      exact hor.1 e hr
    | ok x =>
      rw [hr] at h
      dsimp only at h
      split at h
      · cases h
      · cases h
        exact hsyn _

theorem coerce_ne_outOfFuel {b : Builtins F} {column : Column} {value : Text} : coerce b column value ≠ .error .outOfFuel := by
  intro h
  unfold coerce at h
  split at h
  · split at h <;> cases h
  · split at h
    · split at h <;> cases h
    · cases h

theorem coerceAll_ne_outOfFuel {b : Builtins F} {column : Column} (values : List Text) :
    coerceAll b column values ≠ .error .outOfFuel := by
  induction values with
  | nil => rintro ⟨⟩
  | cons value values ih =>
    intro h
    rw [coerceAll] at h
    cases hv : coerce b column value with
    | error e =>
      rw [hv] at h
      cases h
      exact coerce_ne_outOfFuel hv
    | ok v =>
      cases hvs : coerceAll b column values with
      | error e =>
        simp only [bind, Except.bind, hv, hvs] at h
        cases h
        exact ih hvs
      | ok vs =>
        simp only [bind, Except.bind, hv, hvs] at h
        cases h

theorem buildComparison_ne_outOfFuel {b : Builtins F} {column : Column} {operator : Text} {values : List Text} :
    buildComparison b column operator values ≠ .error .outOfFuel := by
  intro h
  unfold buildComparison at h
  split at h
  · cases h
  · rcases values with _ | ⟨raw, _ | ⟨raw', rest⟩⟩
    · cases h
    · dsimp only at h
      split at h
      · cases h
      · cases hv : coerce b column raw with
        | error e =>
          rw [hv] at h
          cases h
          exact coerce_ne_outOfFuel hv
        | ok v => rw [hv] at h; cases h
    · dsimp only at h
      split at h
      · cases hv : coerceAll b column (raw :: raw' :: rest) with
        | error e =>
          rw [hv] at h
          cases h
          exact coerceAll_ne_outOfFuel _ hv
        | ok v => rw [hv] at h; cases h
      · cases h

/-- The parser's fuel is enough. -/
theorem parse_ne_outOfFuel (b : Builtins F) (tokens : List Token) : parse b tokens ≠ .error .outOfFuel := by
  intro h
  exact parse_error (E := (· ≠ .outOfFuel)) (by simp)
    (fun t op rest _ _ column _ values e _ he h' => buildComparison_ne_outOfFuel (h' ▸ he)) h rfl

end LogAnalytics.Search
