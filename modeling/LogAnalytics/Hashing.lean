import Mathlib.Data.List.Sort
import LogAnalytics.Lib.Separated
import LogAnalytics.Models.LogEvent
/-!
# Fingerprints

What `fingerprint` and `fingerprint_fields` hash: the values as texts with a unit separator
between them. A text is rendered as it is, so it can read like any other value, and it can hold
the separator too.
-/
open LogAnalytics.Lib

namespace LogAnalytics

/-! ## Values -/

mutual

/-- A field value: no datetime, no infinity and no NaN, and every key of a mapping once. -/
def Value.isField : Value → Bool
  | .none | .bool _ | .int _ | .str _ | .float (.finite _) => true
  | .float (.infinite _) | .float .nan | .datetime _ => false
  | .list values => isFieldAll values
  | .dict items => decide (items.map Prod.fst).Nodup && isFieldItems items

def Value.isFieldAll : List Value → Bool
  | [] => true
  | v :: values => v.isField && isFieldAll values

def Value.isFieldItems : List (Text × Value) → Bool
  | [] => true
  | (_, v) :: items => v.isField && isFieldItems items

end

mutual

/-- There is an integer in it that `str` refuses. -/
def Value.oversize : Value → Bool
  | .int z => textLimit ≤ z.natAbs
  | .list values => anyOversize values
  | .dict items => anyItemOversize items
  | .none | .bool _ | .float _ | .str _ | .datetime _ => false

def Value.anyOversize : List Value → Bool
  | [] => false
  | v :: values => v.oversize || anyOversize values

def Value.anyItemOversize : List (Text × Value) → Bool
  | [] => false
  | (_, v) :: items => v.oversize || anyItemOversize items

end

/-- Two values are the same: the items of a mapping may come in any order. -/
inductive Value.Same : Value → Value → Prop
  | refl (v : Value) : Same v v
  | list {values values' : List Value} (each : List.Forall₂ Same values values') : Same (.list values) (.list values')
  | dict {items items' items'' : List (Text × Value)} (order : items'.Perm items'')
      (keys : items.map Prod.fst = items'.map Prod.fst)
      (each : List.Forall₂ Same (items.map Prod.snd) (items'.map Prod.snd)) : Same (.dict items) (.dict items'')

theorem Value.Same.eq_str {v : Value} {text : Text} (h : Value.Same v (.str text)) : v = .str text := by
  cases h
  rfl

theorem Value.Same.str_eq {v : Value} {text : Text} (h : Value.Same (.str text) v) : v = .str text := by
  cases h
  rfl

/-- `record.get(name)` -/
def Dict.getOrNone (record : Dict) (name : Text) : Value := (record.get? name).getD .none

theorem Dict.getOrNone_set (record : Dict) (key name : Text) (v : Value) :
    (record.set key v).getOrNone name = if name = key then v else record.getOrNone name := by
  rw [getOrNone, Dict.get?_set]
  split <;> rfl

theorem Value.isFieldItems_iff {items : List (Text × Value)} :
    Value.isFieldItems items = true ↔ ∀ item ∈ items, item.2.isField = true := by
  induction items with
  | nil => simp [Value.isFieldItems]
  | cons item items ih => rw [Value.isFieldItems, Bool.and_eq_true, ih, List.forall_mem_cons]

theorem Dict.isField_getOrNone {record : Dict} (h : (Value.dict record).isField = true) (name : Text) :
    (record.getOrNone name).isField = true := by
  rw [Value.isField, Bool.and_eq_true, Value.isFieldItems_iff] at h
  rw [getOrNone, get?]
  cases hfind : record.find? (·.1 = name) with
  | none => rfl
  | some item => exact h.2 item (List.mem_of_find?_eq_some hfind)

theorem Dict.isField_set {record : Dict} (h : (Value.dict record).isField = true) (key : Text) {v : Value}
    (hv : v.isField = true) : (Value.dict (record.set key v)).isField = true := by
  rw [Value.isField, Bool.and_eq_true, Value.isFieldItems_iff, decide_eq_true_eq] at h ⊢
  obtain ⟨hkeys, hvalues⟩ := h
  rw [set]
  split
  · have hmap : (record.map fun item => if item.1 = key then (key, v) else item).map Prod.fst = record.map Prod.fst := by
      rw [List.map_map]
      refine List.map_congr_left fun item _ => ?_
      by_cases hkey : item.1 = key <;> simp [hkey]
    refine ⟨by rw [hmap]; exact hkeys, ?_⟩
    rw [List.forall_mem_map]
    intro item hitem
    split
    · exact hv
    · exact hvalues item hitem
  · next hnone =>
    -- A new key goes to the end.
    have hnew : key ∉ record.map Prod.fst := by
      rw [List.mem_map]
      rintro ⟨item, hitem, rfl⟩
      exact hnone (List.any_eq_true.2 ⟨item, hitem, decide_eq_true rfl⟩)
    refine ⟨?_, ?_⟩
    · rw [List.map_append, List.nodup_append]
      refine ⟨hkeys, List.nodup_singleton _, ?_⟩
      rintro k hk k' hk' rfl
      rw [List.map_singleton, List.mem_singleton] at hk'
      subst hk'
      exact hnew hk
    · rw [List.forall_mem_append, List.forall_mem_singleton]
      exact ⟨hvalues, hv⟩

namespace Hashing

/-- `_NULL` -/
def unitSeparator : CodePoint := Timeutil.char '\x1f'

/-- Between two brackets. -/
def enclosed (left right : String) (text : Text) : Text := Text.ofString left ++ text ++ Text.ofString right

def commaSeparated (parts : List Text) : Text := [Timeutil.char ','].intercalate parts

section

variable (strDatetime : Datetime → Text) (repr : PyFloat → String)

mutual

/-- `_canonical`; the keys of a mapping differ, so sorting its items never compares two values. -/
def canonicalValue : Value → Except Exn Text
  | .none => .ok (canonical none)
  | .bool b => .ok (Text.ofString (if b then "true" else "false"))
  | .float f => .ok (Text.ofString (repr f))
  | .list values => (canonicalAll values).map fun parts => enclosed "[" "]" (commaSeparated parts)
  | .dict items => (canonicalItems items).map fun parts =>
      enclosed "\x7b" "\x7d" (commaSeparated
        ((parts.insertionSort (·.1 ≤ ·.1)).map fun p => p.1 ++ Text.ofString "=" ++ p.2))
  | .int z => reprInt z
  | .datetime d => .ok (strDatetime d)
  | .str text => .ok text

def canonicalAll : List Value → Except Exn (List Text)
  | [] => .ok []
  | v :: values => do
    let text ← canonicalValue v
    let texts ← canonicalAll values
    .ok (text :: texts)

def canonicalItems : List (Text × Value) → Except Exn (List (Text × Text))
  | [] => .ok []
  | (key, v) :: items => do
    let text ← canonicalValue v
    let texts ← canonicalItems items
    .ok ((key, text) :: texts)

end

/-- The string that `fingerprint` hashes. -/
def joined (values : List Value) : Except Exn Text := (canonicalAll strDatetime repr values).map ([unitSeparator].intercalate ·)

/-- `fingerprint` -/
def fingerprint (py : Python) (values : List Value) : Except Exn String :=
  (joined py.strDatetime repr values).map py.blake2b

/-- What `fingerprint_fields` hands to `fingerprint`: every name and its value. -/
def fieldParts (record : Dict) (fields : List Text) : List Value :=
  fields.flatMap fun name => [.str name, record.getOrNone name]

/-- `fingerprint_fields` -/
def fingerprintFields (py : Python) (record : Dict) (fields : List Text) : Except Exn String :=
  fingerprint repr py (fieldParts record fields)

end

variable {strDatetime : Datetime → Text} {repr : PyFloat → String}

/-! ## What rendering ends in -/

mutual

/-- Rendering ends in a text unless `str` refuses an integer. -/
theorem canonicalValue_ok_iff : ∀ v : Value, (∃ text, canonicalValue strDatetime repr v = .ok text) ↔ v.oversize = false
  | .none | .bool _ | .float _ | .datetime _ | .str _ => ⟨fun _ => rfl, fun _ => ⟨_, rfl⟩⟩
  | .int z => by
    rw [canonicalValue, reprInt, Value.oversize, decide_eq_false_iff_not, Nat.not_le]
    split <;> simp [*]
  | .list values => by
    rw [canonicalValue, Value.oversize, ← canonicalAll_ok_iff values]
    cases canonicalAll strDatetime repr values <;> simp [Except.map]
  | .dict items => by
    rw [canonicalValue, Value.oversize, ← canonicalItems_ok_iff items]
    cases canonicalItems strDatetime repr items <;> simp [Except.map]

theorem canonicalAll_ok_iff : ∀ values : List Value,
    (∃ texts, canonicalAll strDatetime repr values = .ok texts) ↔ Value.anyOversize values = false
  | [] => ⟨fun _ => rfl, fun _ => ⟨_, rfl⟩⟩
  | v :: values => by
    rw [canonicalAll, Value.anyOversize, Bool.or_eq_false_iff, ← canonicalValue_ok_iff v, ← canonicalAll_ok_iff values]
    cases canonicalValue strDatetime repr v with
    | error e => simp [bind, Except.bind]
    | ok text => cases canonicalAll strDatetime repr values <;> simp [bind, Except.bind]

theorem canonicalItems_ok_iff : ∀ items : List (Text × Value),
    (∃ texts, canonicalItems strDatetime repr items = .ok texts) ↔ Value.anyItemOversize items = false
  | [] => ⟨fun _ => rfl, fun _ => ⟨_, rfl⟩⟩
  | (key, v) :: items => by
    rw [canonicalItems, Value.anyItemOversize, Bool.or_eq_false_iff, ← canonicalValue_ok_iff v, ← canonicalItems_ok_iff items]
    cases canonicalValue strDatetime repr v with
    | error e => simp [bind, Except.bind]
    | ok text => cases canonicalItems strDatetime repr items <;> simp [bind, Except.bind]

end

theorem canonicalAll_eq_ok {values : List Value} : ∀ {texts : List Text}, canonicalAll strDatetime repr values = .ok texts ↔
    List.Forall₂ (fun v text => canonicalValue strDatetime repr v = .ok text) values texts := by
  induction values with
  | nil =>
    intro texts
    rw [canonicalAll, List.forall₂_nil_left_iff]
    simp [eq_comm]
  | cons v values ih =>
    intro texts
    rw [canonicalAll, List.forall₂_cons_left_iff]
    simp only [← ih]
    cases canonicalValue strDatetime repr v with
    | error e => simp [bind, Except.bind]
    | ok text => cases canonicalAll strDatetime repr values <;> simp [bind, Except.bind, eq_comm]

theorem joined_eq_ok {values : List Value} {text : Text} : joined strDatetime repr values = .ok text ↔
    ∃ texts, List.Forall₂ (fun v t => canonicalValue strDatetime repr v = .ok t) values texts ∧
      [unitSeparator].intercalate texts = text := by
  simp only [← canonicalAll_eq_ok, joined]
  cases canonicalAll strDatetime repr values <;> simp [Except.map]

theorem oversize_of_mem {values : List Value} {v : Value} (hv : v ∈ values) (h : v.oversize = true) :
    Value.anyOversize values = true := by
  induction values with
  | nil => cases hv
  | cons w values ih =>
    rw [Value.anyOversize, Bool.or_eq_true]
    obtain rfl | hv := List.mem_cons.1 hv
    · exact .inl h
    · exact .inr (ih hv)

theorem joined_error {values : List Value} (h : Value.anyOversize values = true) (text : Text) :
    joined strDatetime repr values ≠ .ok text := by
  intro hjoined
  obtain ⟨texts, htexts, -⟩ := joined_eq_ok.1 hjoined
  have hno := (canonicalAll_ok_iff values).1 ⟨texts, canonicalAll_eq_ok.2 htexts⟩
  rw [h] at hno
  cases hno

theorem isFieldAll_str (texts : List Text) : Value.isFieldAll (texts.map .str) = true := by
  induction texts with
  | nil => rfl
  | cons text texts ih => rw [List.map_cons, Value.isFieldAll, ih]; rfl

/-- A row of texts is hashed as it is. -/
theorem joined_str (texts : List Text) :
    joined strDatetime repr (texts.map .str) = .ok ([unitSeparator].intercalate texts) := by
  refine joined_eq_ok.2 ⟨texts, ?_, rfl⟩
  rw [List.forall₂_map_left_iff, List.forall₂_same]
  exact fun _ _ => rfl

/-- The event id is the fingerprint of its parts. -/
theorem fingerprint_str (py : Python) (parts : List Text) :
    fingerprint repr py (parts.map .str) = .ok (eventIdFor py parts) := by
  rw [fingerprint, joined_str]
  rfl

/-! ## Texts that read like other values -/

/-- The text is what a value that is none is rendered as: `None`, a truth value, an integer or a
float, anything between brackets, anything with an equals sign between braces. -/
def Rendered (repr : PyFloat → String) (text : Text) : Prop :=
  text = canonical none ∨ (∃ b : Bool, text = Text.ofString (if b then "true" else "false")) ∨
    (∃ z : Int, z.natAbs < textLimit ∧ text = Text.ofString (toString z)) ∨
    (∃ q : ℚ, text = Text.ofString (repr (.finite q))) ∨ (∃ inner, text = enclosed "[" "]" inner) ∨
    text = enclosed "\x7b" "\x7d" [] ∨ ∃ key inner, text = enclosed "\x7b" "\x7d" (key ++ Text.ofString "=" ++ inner)

theorem commaSeparated_cons (part : Text) (parts : List Text) : ∃ more, commaSeparated (part :: parts) = part ++ more := by
  rw [commaSeparated]
  cases parts with
  | nil => exact ⟨[], by rw [List.intercalate_singleton, List.append_nil]⟩
  | cons next parts => exact ⟨_, by rw [List.intercalate_cons_cons, List.append_assoc]⟩

theorem rendered_items (items : List (Text × Text)) :
    Rendered repr (enclosed "\x7b" "\x7d" (commaSeparated (items.map fun p => p.1 ++ Text.ofString "=" ++ p.2))) := by
  cases items with
  | nil => exact .inr (.inr (.inr (.inr (.inr (.inl rfl)))))
  | cons item rest =>
    rw [List.map_cons]
    obtain ⟨more, hmore⟩ := commaSeparated_cons (item.1 ++ Text.ofString "=" ++ item.2)
      (rest.map fun p => p.1 ++ Text.ofString "=" ++ p.2)
    rw [hmore, List.append_assoc]
    exact .inr (.inr (.inr (.inr (.inr (.inr ⟨item.1, item.2 ++ more, rfl⟩)))))

theorem rendered_iff {text : Text} : Rendered repr text ↔
    ∃ v : Value, v.isField = true ∧ (∀ t, v ≠ .str t) ∧ canonicalValue strDatetime repr v = .ok text := by
  constructor
  · rintro (rfl | ⟨b, rfl⟩ | ⟨z, hz, rfl⟩ | ⟨q, rfl⟩ | ⟨inner, rfl⟩ | rfl | ⟨key, inner, rfl⟩)
    · exact ⟨.none, rfl, nofun, rfl⟩
    · exact ⟨.bool b, rfl, nofun, rfl⟩
    · exact ⟨.int z, rfl, nofun, by rw [canonicalValue, reprInt, if_pos hz]⟩
    · exact ⟨.float (.finite q), rfl, nofun, rfl⟩
    -- A text is rendered as it is: a list or a dictionary of one shows any inside.
    · refine ⟨.list [.str inner], rfl, nofun, ?_⟩
      rw [canonicalValue, canonicalAll, canonicalAll]
      simp [canonicalValue, bind, Except.bind, Except.map, commaSeparated]
    · exact ⟨.dict [], rfl, nofun, rfl⟩
    · refine ⟨.dict [(key, .str inner)], rfl, nofun, ?_⟩
      rw [canonicalValue, canonicalItems, canonicalItems]
      simp [canonicalValue, bind, Except.bind, Except.map, commaSeparated]
  · rintro ⟨v, hfield, hno, h⟩
    cases v with
    | none => cases h; exact .inl rfl
    | bool b => cases h; exact .inr (.inl ⟨b, rfl⟩)
    | int z =>
      rw [canonicalValue, reprInt] at h
      split at h
      · next hz => cases h; exact .inr (.inr (.inl ⟨z, hz, rfl⟩))
      · cases h
    | float f =>
      cases f with
      | finite q => cases h; exact .inr (.inr (.inr (.inl ⟨q, rfl⟩)))
      | infinite _ | nan => cases hfield
    | str t => exact absurd rfl (hno t)
    | datetime _ => cases hfield
    | list values =>
      rw [canonicalValue] at h
      cases hparts : canonicalAll strDatetime repr values with
      | error e => rw [hparts] at h; cases h
      | ok parts => rw [hparts] at h; cases h; exact .inr (.inr (.inr (.inr (.inl ⟨_, rfl⟩))))
    | dict items =>
      rw [canonicalValue] at h
      cases hparts : canonicalItems strDatetime repr items with
      | error e => rw [hparts] at h; cases h
      | ok parts =>
        rw [hparts] at h
        cases h
        exact rendered_items _

/-! ## Sequences -/

/-- No other sequence of field values has the string that is hashed of this one. -/
def Unambiguous (strDatetime : Datetime → Text) (repr : PyFloat → String) (values : List Value) : Prop :=
  ∀ others text, Value.isFieldAll others = true → joined strDatetime repr values = .ok text →
    joined strDatetime repr others = .ok text → List.Forall₂ Value.Same values others

/-- A text that reads like no other value. -/
theorem eq_str_of_canonicalValue {v : Value} {text : Text} (hfield : v.isField = true) (hplain : ¬Rendered repr text)
    (h : canonicalValue strDatetime repr v = .ok text) : v = .str text := by
  by_cases hstr : ∃ t, v = .str t
  · obtain ⟨t, rfl⟩ := hstr
    cases h
    rfl
  · exact absurd (rendered_iff.2 ⟨v, hfield, fun t ht => hstr ⟨t, ht⟩, h⟩) hplain

theorem unambiguous_iff (values : List Value) : Unambiguous strDatetime repr values ↔
    Value.anyOversize values = true ∨
      ∃ text, values = [.str text] ∧ text ≠ [] ∧ unitSeparator ∉ text ∧ ¬Rendered repr text := by
  constructor
  · intro h
    cases hover : Value.anyOversize values with
    | true => exact .inl rfl
    | false =>
      refine .inr ?_
      obtain ⟨texts, htexts⟩ := (canonicalAll_ok_iff values).2 hover
      have hjoined : joined strDatetime repr values = .ok ([unitSeparator].intercalate texts) :=
        joined_eq_ok.2 ⟨texts, canonicalAll_eq_ok.1 htexts, rfl⟩
      generalize [unitSeparator].intercalate texts = text at hjoined
      -- The text of the sequence is the text of one value, the text itself.
      have hothers : ∀ parts : List Text, [unitSeparator].intercalate parts = text →
          List.Forall₂ Value.Same values (parts.map .str) := fun parts hparts =>
        h _ text (isFieldAll_str parts) hjoined (by rw [joined_str, hparts])
      obtain ⟨v, rest, hv, hrest, rfl⟩ := List.forall₂_cons_right_iff.1 (hothers [text] List.intercalate_singleton)
      obtain rfl := List.forall₂_nil_right_iff.1 hrest
      obtain rfl := hv.eq_str
      refine ⟨text, rfl, ?_, ?_, ?_⟩
      · rintro rfl
        cases hothers [] rfl
      · intro hmem
        obtain ⟨front, back, rfl⟩ := List.append_of_mem hmem
        cases hothers [front, back] (by simp) with
        | cons _ hnil => cases hnil
      · intro hrendered
        obtain ⟨v, hfield, hno, hv⟩ := rendered_iff.1 hrendered
        have hsame := h [v] text (by simp [Value.isFieldAll, hfield]) hjoined
          (joined_eq_ok.2 ⟨[text], .cons hv .nil, List.intercalate_singleton⟩)
        cases hsame with
        | cons hsame _ => exact hno text hsame.str_eq
  · rintro (hover | ⟨text, rfl, hne, hsep, hplain⟩)
    · exact fun _ text _ hjoined => absurd hjoined (joined_error hover text)
    · intro others text' hfields hjoined hothers
      obtain rfl : [unitSeparator].intercalate [text] = text' := Except.ok.inj ((joined_str [text]).symm.trans hjoined)
      rw [List.intercalate_singleton] at hothers
      obtain ⟨texts, htexts, hjoin⟩ := joined_eq_ok.1 hothers
      match others, texts, htexts with
      | [], [], _ => exact absurd hjoin.symm hne
      | [v], [t], .cons hv .nil =>
        rw [List.intercalate_singleton] at hjoin
        subst hjoin
        rw [Value.isFieldAll, Bool.and_eq_true] at hfields
        rw [eq_str_of_canonicalValue hfields.1 hplain hv]
        exact .cons (.refl _) .nil
      | _ :: _ :: _, t :: t' :: more, _ =>
        refine absurd ?_ hsep
        rw [← hjoin]
        exact mem_intercalate _ (by simp)

/-! ## Records -/

/-- The names label the texts of their values. -/
theorem joined_fieldParts {record : Dict} {fields : List Text} {text : Text} :
    joined strDatetime repr (fieldParts record fields) = .ok text ↔
      ∃ render : Text → Text, (∀ name ∈ fields, canonicalValue strDatetime repr (record.getOrNone name) = .ok (render name)) ∧
        text = labelled unitSeparator (fields.map fun name => (name, render name)) := by
  have hparts : ∀ {fields : List Text} {render : Text → Text},
      (∀ name ∈ fields, canonicalValue strDatetime repr (record.getOrNone name) = .ok (render name)) →
        List.Forall₂ (fun v t => canonicalValue strDatetime repr v = .ok t) (fieldParts record fields)
          ((fields.map fun name => (name, render name)).flatMap fun p => [p.1, p.2]) := by
    intro fields render hrender
    induction fields with
    | nil => exact .nil
    | cons name fields ih =>
      rw [List.forall_mem_cons] at hrender
      exact .cons rfl (.cons hrender.1 (ih hrender.2))
  constructor
  · intro h
    -- Nothing raised, so that every name has a text.
    let render : Text → Text := fun name => (canonicalValue strDatetime repr (record.getOrNone name)).toOption.getD []
    have hrender : ∀ name ∈ fields, canonicalValue strDatetime repr (record.getOrNone name) = .ok (render name) := by
      intro name hname
      cases hvalue : canonicalValue strDatetime repr (record.getOrNone name) with
      | ok t => simp [render, hvalue, Except.toOption]
      | error e =>
        refine absurd h (joined_error (oversize_of_mem (v := record.getOrNone name) ?_ ?_) text)
        · exact List.mem_flatMap.2 ⟨name, hname, List.mem_cons_of_mem _ List.mem_cons_self⟩
        · by_contra hno
          obtain ⟨t, ht⟩ := (canonicalValue_ok_iff (record.getOrNone name)).2 (Bool.eq_false_of_not_eq_true hno)
          rw [hvalue] at ht
          cases ht
    refine ⟨render, hrender, ?_⟩
    have hjoined := joined_eq_ok.2 ⟨_, hparts hrender, rfl⟩
    rw [h] at hjoined
    exact Except.ok.inj hjoined
  · rintro ⟨render, hrender, rfl⟩
    exact joined_eq_ok.2 ⟨_, hparts hrender, rfl⟩

/-- No record with other values under the names has the string that is hashed of this one. -/
def UnambiguousRecord (strDatetime : Datetime → Text) (repr : PyFloat → String) (record : Dict) (fields : List Text) :
    Prop :=
  ∀ (other : Dict) (text : Text), (Value.dict other).isField = true →
    joined strDatetime repr (fieldParts record fields) = .ok text → joined strDatetime repr (fieldParts other fields) = .ok text →
      ∀ name ∈ fields, Value.Same (record.getOrNone name) (other.getOrNone name)

/-- Every value is a text that reads like no other value, and every name can be placed in one way
between its own value and the one before it. -/
def PlainRecord (repr : PyFloat → String) (record : Dict) (fields : List Text) : Prop :=
  ∃ text : Text → Text, (∀ name ∈ fields, record.getOrNone name = .str (text name) ∧ ¬Rendered repr (text name)) ∧
    (fields.map fun name => (name, text name)).IsChain (Placed unitSeparator)

/-- Without separators in the values every name is in its place. -/
theorem plainRecord_of_not_mem {record : Dict} {fields : List Text} (text : Text → Text)
    (htext : ∀ name ∈ fields, record.getOrNone name = .str (text name) ∧ ¬Rendered repr (text name))
    (hsep : ∀ name ∈ fields, unitSeparator ∉ text name) : PlainRecord repr record fields := by
  refine ⟨text, htext, ?_⟩
  rw [List.isChain_map, List.isChain_iff_forall_rel_of_append_cons_cons]
  rintro first second pre post rfl
  exact .of_not_mem (hsep first (by simp)) (hsep second (by simp))

theorem unambiguousRecord_of_plain {record : Dict} {fields : List Text} (h : PlainRecord repr record fields) :
    UnambiguousRecord strDatetime repr record fields := by
  obtain ⟨text, htext, hplaced⟩ := h
  intro other joinedText hother hjoined hjoined' name hname
  obtain ⟨render, hrender, rfl⟩ := joined_fieldParts.1 hjoined
  obtain ⟨render', hrender', heq⟩ := joined_fieldParts.1 hjoined'
  have hsame : ∀ name ∈ fields, render name = text name := fun name hname => by
    have hvalue := hrender name hname
    rw [(htext name hname).1] at hvalue
    exact (Except.ok.inj hvalue).symm
  rw [List.map_congr_left fun name hname => by rw [hsame name hname]] at heq
  have hmap := labelled_inj hplaced (by simp [List.map_map, Function.comp_def]) heq
  have hvalue : text name = render' name := congrArg Prod.snd (List.map_inj_left.1 hmap name hname)
  obtain ⟨hstr, hplain⟩ := htext name hname
  rw [hstr, eq_str_of_canonicalValue (other.isField_getOrNone hother name) hplain (hvalue ▸ hrender' name hname)]
  exact .refl _

/-- A record of the same string has the same values. -/
theorem UnambiguousRecord.same {record other : Dict} {fields : List Text} (h : UnambiguousRecord strDatetime repr record fields)
    (hother : (Value.dict other).isField = true) {render render' : Text → Text}
    (hrender : ∀ name ∈ fields, canonicalValue strDatetime repr (record.getOrNone name) = .ok (render name))
    (hrender' : ∀ name ∈ fields, canonicalValue strDatetime repr (other.getOrNone name) = .ok (render' name))
    (heq : labelled unitSeparator (fields.map fun name => (name, render name)) =
      labelled unitSeparator (fields.map fun name => (name, render' name))) {name : Text} (hname : name ∈ fields) :
    Value.Same (record.getOrNone name) (other.getOrNone name) :=
  h other _ hother (joined_fieldParts.2 ⟨render, hrender, rfl⟩) (joined_fieldParts.2 ⟨render', hrender', heq⟩) name hname

/-- A value that was replaced by one of the same text. -/
theorem UnambiguousRecord.same_set {record : Dict} (hrecord : (Value.dict record).isField = true) {fields : List Text}
    (h : UnambiguousRecord strDatetime repr record fields) {render : Text → Text}
    (hrender : ∀ name ∈ fields, canonicalValue strDatetime repr (record.getOrNone name) = .ok (render name)) {name : Text}
    (hname : name ∈ fields) {v : Value} (hfield : v.isField = true)
    (hv : canonicalValue strDatetime repr v = .ok (render name)) : Value.Same (record.getOrNone name) v := by
  have hset : ∀ key ∈ fields, canonicalValue strDatetime repr ((record.set name v).getOrNone key) = .ok (render key) := by
    intro key hkey
    rw [Dict.getOrNone_set]
    split
    · next heq => rw [heq]; exact hv
    · exact hrender key hkey
  have hsame := h.same (Dict.isField_set hrecord name hfield) hrender hset rfl hname
  rwa [Dict.getOrNone_set, if_pos rfl] at hsame

/-- A label that can be placed elsewhere stands between the values of another record too. -/
theorem UnambiguousRecord.placed {record : Dict} (hrecord : (Value.dict record).isField = true) {fields : List Text}
    (hnodup : fields.Nodup) (h : UnambiguousRecord strDatetime repr record fields) {text : Text → Text}
    (htext : ∀ name ∈ fields, record.getOrNone name = .str (text name)) :
    (fields.map fun name => (name, text name)).IsChain (Placed unitSeparator) := by
  rw [List.isChain_map, List.isChain_iff_forall_rel_of_append_cons_cons]
  rintro first second pre post rfl v w heq
  have hne : first ≠ second := by
    rintro rfl
    exact absurd (List.nodup_append.1 hnodup).2.1 (by simp)
  have hpre : ∀ name ∈ pre, name ≠ first ∧ name ≠ second := fun name hname => by
    refine ⟨?_, ?_⟩ <;> rintro rfl <;> exact (List.nodup_append.1 hnodup).2.2 name hname name (by simp) rfl
  have hpost : ∀ name ∈ post, name ≠ first ∧ name ≠ second := fun name hname => by
    have hcons := (List.nodup_append.1 hnodup).2.1
    rw [List.nodup_cons, List.nodup_cons] at hcons
    refine ⟨?_, ?_⟩ <;> rintro rfl
    · exact hcons.1 (List.mem_cons_of_mem _ hname)
    · exact hcons.2.1 hname
  -- The other record: the two values as the other place of the label divides them.
  let text' : Text → Text := fun name => if name = second then w else if name = first then v else text name
  have htext' : ∀ name ∈ pre ++ first :: second :: post,
      canonicalValue strDatetime repr (((record.set first (.str v)).set second (.str w)).getOrNone name) = .ok (text' name) := by
    intro name hname
    rw [Dict.getOrNone_set, Dict.getOrNone_set]
    simp only [text']
    split
    · rfl
    · split
      · rfl
      · rw [htext name hname]
        rfl
  have hfield := Dict.isField_set (Dict.isField_set hrecord first (v := .str v) rfl) second (v := .str w) rfl
  have hkept : ∀ names : List Text, (∀ name ∈ names, name ≠ first ∧ name ≠ second) →
      (names.map fun name => (name, text' name)) = names.map fun name => (name, text name) := fun names hnames =>
    List.map_congr_left fun name hname => by simp only [text', if_neg (hnames name hname).1, if_neg (hnames name hname).2]
  have hlabelled : labelled unitSeparator ((pre ++ first :: second :: post).map fun name => (name, text name)) =
      labelled unitSeparator ((pre ++ first :: second :: post).map fun name => (name, text' name)) := by
    rw [List.map_append, List.map_append, hkept pre hpre]
    simp only [List.map_cons]
    rw [hkept post hpost]
    refine labelled_congr (by rfl) ?_ _
    simpa [text', hne] using heq
  have hsame := h.same hfield (fun name hname => by rw [htext name hname]; rfl) htext' hlabelled
    (List.mem_append_right pre (List.mem_cons_self (l := second :: post)))
  rw [htext first (by simp), Dict.getOrNone_set, if_neg hne, Dict.getOrNone_set, if_pos rfl] at hsame
  exact Value.str.inj hsame.str_eq

theorem plainRecord_of_unambiguous {record : Dict} (hrecord : (Value.dict record).isField = true) {fields : List Text}
    (hnodup : fields.Nodup) (hover : ∀ name ∈ fields, (record.getOrNone name).oversize = false)
    (h : UnambiguousRecord strDatetime repr record fields) : PlainRecord repr record fields := by
  let render : Text → Text := fun name => (canonicalValue strDatetime repr (record.getOrNone name)).toOption.getD []
  have hrender : ∀ name ∈ fields, canonicalValue strDatetime repr (record.getOrNone name) = .ok (render name) := by
    intro name hname
    obtain ⟨t, ht⟩ : ∃ t, canonicalValue strDatetime repr (record.getOrNone name) = .ok t :=
      (canonicalValue_ok_iff _).2 (hover name hname)
    simp [render, ht, Except.toOption]
  have htext : ∀ name ∈ fields, record.getOrNone name = .str (render name) := fun name hname =>
    (h.same_set hrecord hrender hname (v := .str (render name)) rfl rfl).eq_str
  refine ⟨render, fun name hname => ⟨htext name hname, fun hrendered => ?_⟩, h.placed hrecord hnodup htext⟩
  obtain ⟨v, hfield, hno, hv⟩ := rendered_iff.1 hrendered
  have hsame := h.same_set hrecord hrender hname hfield hv
  rw [htext name hname] at hsame
  exact hno _ hsame.str_eq

/-- Of a sequence the string is its own when it is one text that reads like no other value, of a
record when its values are such texts and the names can be placed in one way. -/
theorem fingerprint_injective_iff (strDatetime : Datetime → Text) (repr : PyFloat → String) :
    (∀ values : List Value, Unambiguous strDatetime repr values ↔
      Value.anyOversize values = true ∨
        ∃ text, values = [.str text] ∧ text ≠ [] ∧ unitSeparator ∉ text ∧ ¬Rendered repr text) ∧
    ∀ (record : Dict) (fields : List Text), (Value.dict record).isField = true →
      ((∃ name ∈ fields, (record.getOrNone name).oversize = true) ∨ PlainRecord repr record fields →
        UnambiguousRecord strDatetime repr record fields) ∧
      (fields.Nodup → UnambiguousRecord strDatetime repr record fields →
        (∃ name ∈ fields, (record.getOrNone name).oversize = true) ∨ PlainRecord repr record fields) := by
  refine ⟨unambiguous_iff, fun record fields hrecord => ⟨?_, fun hnodup h => ?_⟩⟩
  · rintro (⟨name, hname, hover⟩ | hplain)
    · refine fun other text _ hjoined => absurd hjoined (joined_error (oversize_of_mem ?_ hover) text)
      exact List.mem_flatMap.2 ⟨name, hname, List.mem_cons_of_mem _ List.mem_cons_self⟩
    · exact unambiguousRecord_of_plain hplain
  · by_cases hover : ∃ name ∈ fields, (record.getOrNone name).oversize = true
    · exact .inl hover
    · refine .inr (plainRecord_of_unambiguous hrecord hnodup (fun name hname => ?_) h)
      by_contra hno
      exact hover ⟨name, hname, Bool.eq_true_of_not_eq_false hno⟩

theorem chars_toString_int {z : Int} {c : Char} (h : c ∈ (toString z).toList) : c = '-' ∨ c.isDigit = true := by
  have hnat : ∀ n : Nat, ∀ d ∈ (toString n).toList, d.isDigit = true := fun n d hd => by
    rw [Nat.toString_eq_ofList_toDigits, String.toList_ofList] at hd
    exact Nat.isDigit_of_mem_toDigits (by decide) (by decide) hd
  cases z with
  | ofNat n => exact .inr (hnat n c h)
  | negSucc n =>
    have hsign : c ∈ ("-" ++ toString (n + 1)).toList := h
    rw [String.toList_append, List.mem_append] at hsign
    rcases hsign with hsign | hdigits
    · exact .inl (List.mem_singleton.1 hsign)
    · exact .inr (hnat _ c hdigits)

/-- A record of a service and a level. -/
theorem fingerprint_injective_level :
    let strDatetime : Datetime → Text := fun _ => []
    let repr : PyFloat → String := fun _ => "0.0"
    let record : Dict :=
      [(Text.ofString "service", .str (Text.ofString "ERROR")), (Text.ofString "level", .str (Text.ofString "ERROR"))]
    let fields := [Text.ofString "service", Text.ofString "level"]
    (Value.dict record).isField = true ∧ fields.Nodup ∧ UnambiguousRecord strDatetime repr record fields ∧
      ((∃ name ∈ fields, (record.getOrNone name).oversize = true) ∨ PlainRecord repr record fields) := by
  intro strDatetime repr record fields
  have hplain : ¬Rendered repr (Text.ofString "ERROR") := by
    rintro (h | ⟨b, h⟩ | ⟨z, -, h⟩ | ⟨q, h⟩ | ⟨inner, h⟩ | h | ⟨key, inner, h⟩)
    · exact absurd h (by decide)
    · cases b <;> exact absurd h (by decide)
    · have hchars : "ERROR".toList = (toString z).toList := congrArg String.toList (Text.ofString_injective h)
      have hmem : 'E' ∈ (toString z).toList := hchars ▸ by decide
      rcases chars_toString_int hmem with hc | hc <;> exact absurd hc (by decide)
    · exact absurd h (by decide)
    · exact absurd (List.cons.inj h).1 (by decide)
    · exact absurd h (by decide)
    · exact absurd (List.cons.inj h).1 (by decide)
  have hrecord : PlainRecord repr record fields := by
    refine plainRecord_of_not_mem (fun _ => Text.ofString "ERROR") (fun name hname => ⟨?_, hplain⟩) fun name _ => by decide
    simp only [fields, List.mem_cons, List.not_mem_nil, or_false] at hname
    rcases hname with rfl | rfl <;> rfl
  have hlevel := (fingerprint_injective_iff strDatetime repr).2 record fields rfl
  have hnodup : fields.Nodup := by decide
  have hown := hlevel.1 (.inr hrecord)
  exact ⟨rfl, hnodup, hown, hlevel.2 hnodup hown⟩

/-- A number reads like its digits, and a separator divides a text as it divides two. -/
theorem fingerprint_collides :
    let strDatetime : Datetime → Text := fun _ => []
    let repr : PyFloat → String := fun _ => "0.0"
    let a := Text.ofString "a"
    let b := Text.ofString "b"
    let user := Text.ofString "user"
    joined strDatetime repr [.int 1] = joined strDatetime repr [.str (Text.ofString "1")] ∧
    joined strDatetime repr [.str a, .str b] = joined strDatetime repr [.str (a ++ unitSeparator :: b)] ∧
    joined strDatetime repr (fieldParts [(user, .int 1)] [user]) =
      joined strDatetime repr (fieldParts [(user, .str (Text.ofString "1"))] [user]) ∧
    ¬((∀ values, Value.isFieldAll values = true → Unambiguous strDatetime repr values) ∧
      ∀ record fields, (Value.dict record).isField = true → UnambiguousRecord strDatetime repr record fields) := by
  intro strDatetime repr a b user
  have hone : canonicalValue strDatetime repr (.int 1) = .ok (Text.ofString "1") := by
    have hpow : ∀ n, n ≠ 0 → (1 : Int).natAbs < 10 ^ n := fun n hn => Nat.one_lt_pow hn (by decide)
    rw [canonicalValue, reprInt, textLimit, if_pos (hpow _ (by decide))]
    rfl
  have hint : joined strDatetime repr [.int 1] = .ok (Text.ofString "1") :=
    joined_eq_ok.2 ⟨[Text.ofString "1"], .cons hone .nil, List.intercalate_singleton⟩
  have hrecord : joined strDatetime repr (fieldParts [(user, .int 1)] [user]) =
      joined strDatetime repr (fieldParts [(user, .str (Text.ofString "1"))] [user]) := by
    have hparts : ∀ v : Value, fieldParts [(user, v)] [user] = [.str user, v] := fun v => by
      simp [fieldParts, Dict.getOrNone, Dict.get?]
    rw [hparts, hparts]
    have hleft : joined strDatetime repr [.str user, .int 1] =
        .ok ([unitSeparator].intercalate [user, Text.ofString "1"]) :=
      joined_eq_ok.2 ⟨_, .cons rfl (.cons hone .nil), rfl⟩
    rw [hleft]
    exact (joined_str [user, Text.ofString "1"]).symm
  refine ⟨hint.trans (joined_str [Text.ofString "1"]).symm, rfl, hrecord, fun h => ?_⟩
  have hsame := h.1 [.int 1] rfl [.str (Text.ofString "1")] _ rfl hint (joined_str [Text.ofString "1"])
  cases hsame with
  | cons hsame _ => cases hsame

end Hashing

end LogAnalytics
