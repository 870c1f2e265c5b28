import Mathlib.Data.List.TakeWhile
import LogAnalytics.Search.Colons
/-!
# Values that are too long

The words and quoted values a query has, however long they are, against what becomes of them.
A quoted value that is too long is no token, and one that colons made too long is refused by the
parser; a word that is too long is cut, and its parts are searched for one by one.
-/

namespace LogAnalytics.Search

variable {F : Type}

/-! ## What the user wrote -/

/-- The quoted alternative without its bound. -/
def matchAnyQuoted (quote : CodePoint) : Text → Option (Text × Text)
  | [] => none
  | c :: rest =>
    if c = quote then
      match rest.dropWhile (· ≠ quote) with
      | _ :: left => some (rest.takeWhile (· ≠ quote), left)
      | [] => none
    else none

/-- What the pattern without its bounds matches at the start of a text. -/
def matchWhole (text : Text) : Option Match :=
  match text with
  | [] => none
  | c :: _ =>
    if isWordChar c then
      some (.token .word (text.takeWhile isWordChar) (text.takeWhile isWordChar).length (text.dropWhile isWordChar))
    else
      match (matchAnyQuoted (chr '"') text).or (matchAnyQuoted (chr '\'') text) with
      | some (value, left) => some (.token .quoted value (value.length + 2) left)
      | none => matchToken text

theorem matchAnyQuoted_length {quote : CodePoint} {text value left : Text}
    (h : matchAnyQuoted quote text = some (value, left)) : left.length < text.length := by
  cases text with
  | nil => cases h
  | cons c rest =>
    rw [matchAnyQuoted] at h
    split at h
    · split at h
      · next hdrop =>
        cases h
        have hle := (List.dropWhile_suffix (l := rest) (· ≠ quote)).length_le
        rw [hdrop, List.length_cons] at hle
        rw [List.length_cons]
        omega
      · cases h
    · cases h

theorem matchWhole_length {text : Text} {m : Match} (h : matchWhole text = some m) : m.rest.length < text.length := by
  cases text with
  | nil => cases h
  | cons c rest =>
    rw [matchWhole] at h
    split at h
    · next hc =>
      cases h
      rw [Match.rest, List.dropWhile_cons_of_pos hc, List.length_cons]
      exact Nat.lt_succ_of_le (List.dropWhile_suffix _).length_le
    · split at h
      · next hq =>
        cases h
        rcases Option.or_eq_some_iff.1 hq with hq | ⟨-, hq⟩ <;> exact matchAnyQuoted_length hq
      · exact matchToken_length h

attribute [irreducible] matchWhole

/-- The words and quoted values of a text with the punctuation between them, up to a character
that begins none of these. -/
def written (position : Nat) (text : Text) : List Token :=
  match text with
  | [] => []
  | c :: rest =>
    match h : matchWhole (c :: rest) with
    | none => []
    | some (.blank left) =>
      have : left.length < (c :: rest).length := matchWhole_length h
      written (position + ((c :: rest).length - left.length)) left
    | some (.token kind value length left) =>
      have : left.length < (c :: rest).length := matchWhole_length h
      ⟨kind, value, position⟩ :: written (position + length) left
termination_by text.length
decreasing_by all_goals assumption

/-- A bare word is longer than a token may be. -/
def Cut (text : Text) : Prop := ∃ t ∈ written 0 text, t.kind = .word ∧ maxValueLength < t.value.length

/-! ## Tokens that are not cut -/

/-- Words have no blanks in them, and quoted values are within the bound. -/
def Token.Neat (t : Token) : Prop :=
  (t.kind = .word → ∀ c ∈ t.value, Text.isSpace c = false) ∧ (t.kind = .quoted → t.value.length ≤ maxValueLength)

theorem ofKey_mem {key : Text} {column : Column} (h : Column.ofKey key = some column) : key ∈ fieldNames := by
  unfold Column.ofKey at h
  split at h
  · next a ha =>
    have hkey : Text.ofString a.1 = key := by simpa using List.find?_some ha
    have hmem := List.mem_of_find?_eq_some ha
    rw [← hkey, fieldNames, List.map_append]
    exact List.mem_append_right _ (List.mem_map_of_mem (List.mem_map_of_mem hmem))
  · have hkey : Text.ofString column.name = key := by simpa using List.find?_some h
    have hmem := List.mem_of_find?_eq_some h
    rw [← hkey, fieldNames, List.map_append]
    exact List.mem_append_left _ (List.mem_map_of_mem (List.mem_map_of_mem hmem))

/-- `str.lower` and `str.upper` make no text shorter. -/
structure NeverShorter (case : TextCase) : Prop where
  lower : ∀ t, t.length ≤ (case.lower t).length
  upper : ∀ t, t.length ≤ (case.upper t).length

variable {b : Builtins F}

theorem length_keyword (hcase : NeverShorter b.case) {keyword : String}
    (hkeyword : (Text.ofString keyword).length ≤ maxValueLength) {t : Token} (h : t.isKeyword b keyword = true) : t.value.length ≤ maxValueLength := by
  rw [Token.isKeyword, Bool.and_eq_true, decide_eq_true_eq, decide_eq_true_eq] at h
  exact (hcase.upper t.value).trans (h.2 ▸ hkeyword)

theorem length_field (hcase : NeverShorter b.case) {t : Token} (hneat : t.Neat) (hvalue : t.isValue = true) {column : Column}
    (h : resolveColumn b t.value = .ok column) : t.value.length ≤ maxValueLength := by
  rw [Token.isValue, Bool.or_eq_true, decide_eq_true_eq, decide_eq_true_eq] at hvalue
  rcases hvalue with hkind | hkind
  · unfold resolveColumn at h
    rw [Text.strip_word (hneat.1 hkind)] at h
    split at h
    · next hcolumn =>
      have hshort := (fieldNames_word _ (ofKey_mem hcolumn)).2.2.1
      exact (hcase.lower t.value).trans (hshort.trans (by decide))
    · cases h
  · exact hneat.2 hkind

theorem Values.length_le {ts : List Token} {values : List Text} (h : Values ts values) :
    ∀ t ∈ ts, t.isValue = true → t.value.length ≤ maxValueLength := by
  induction h with
  | one value short => simpa using fun _ => short
  | cons value short sep rest ih =>
    simp only [List.forall_mem_cons]
    refine ⟨fun _ => short, ?_, ih⟩
    simp [Token.isValue, sep]

/-- A query has no words and no quoted values that are too long. -/
theorem Derives.length_le (hcase : NeverShorter b.case) {l : Level} {ts : List Token} {ns : List (Node F)} {d k : Nat}
    (h : Derives b l ts ns d k) : (∀ t ∈ ts, t.Neat) → ∀ t ∈ ts, t.isValue = true → t.value.length ≤ maxValueLength := by
  -- Keywords and fields are short because their upper or lower case is.
  have hnot : ∀ t : Token, t.isNot b = true → t.value.length ≤ maxValueLength := fun t ht => by
    rw [Token.isNot, Bool.or_eq_true] at ht
    exact ht.elim (length_keyword hcase (by decide)) (length_keyword hcase (by decide))
  induction h with
  | @not t ts n d k keyword child ih =>
    intro hneat
    rw [List.forall_mem_cons] at hneat ⊢
    exact ⟨fun _ => hnot t keyword, ih hneat.2⟩
  | @group l r ts ns d k left right inner ih =>
    intro hneat
    rw [List.forall_mem_cons, List.forall_mem_append, List.forall_mem_singleton] at hneat ⊢
    exact ⟨by simp [Token.isValue, left], ih hneat.2.1, by simp [Token.isValue, right]⟩
  | @comparison t op vs values column c field notNot isOp resolves value few builds =>
    intro hneat
    rw [List.forall_mem_cons, List.forall_mem_cons] at hneat ⊢
    exact ⟨fun hvalue => length_field hcase hneat.1 hvalue resolves, by simp [Token.isValue, isOp], value.length_le⟩
  | freeText value notNot short =>
    intro _
    rw [List.forall_mem_singleton]
    exact fun _ => short
  | one _ ih => exact ih
  | @and t ts us n ns d d' k k' term keyword rest ihTerm ihRest =>
    intro hneat
    rw [List.forall_mem_append, List.forall_mem_cons] at hneat ⊢
    exact ⟨ihTerm hneat.1, fun _ => length_keyword hcase (by decide) keyword, ihRest hneat.2.2⟩
  | juxtaposed term noKeyword rest ihTerm ihRest =>
    intro hneat
    rw [List.forall_mem_append] at hneat ⊢
    exact ⟨ihTerm hneat.1, ihRest hneat.2⟩
  | conj _ ih => exact ih
  | @or t ts us ns ms d d' k k' terms keyword rest ihTerms ihRest =>
    intro hneat
    rw [List.forall_mem_append, List.forall_mem_cons] at hneat ⊢
    exact ⟨ihTerms hneat.1, fun _ => length_keyword hcase (by decide) keyword, ihRest hneat.2.2⟩

/-! ## Queries -/

/-- A word of this many letters. -/
def letters (n : Nat) : Text := List.replicate n (chr 'a')

end LogAnalytics.Search
