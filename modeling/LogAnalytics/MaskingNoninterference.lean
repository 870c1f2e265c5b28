import LogAnalytics.Masking
/-!
# What masking of nested data depends on

`mask_mapping` with any `mask_text`, on JSON-like objects of any depth: objects that differ
under sensitive keys only are masked alike, and nothing but text and what is under such a key
changes.
-/

namespace LogAnalytics

/-- A JSON-like object; `S` are the scalars that are no text. -/
inductive Json (S : Type) where
  | scalar (s : S)
  | str (text : Text)
  | list (items : List (Json S))
  | tuple (items : List (Json S))
  | dict (items : List (Text × Json S))

/-- What the masking of nested data is configured with. -/
structure FieldMasker where
  maskText : Text → Text
  lower : Text → Text
  extraFieldNames : List Text

namespace FieldMasker

variable {S : Type} (m : FieldMasker)

/-- `_field_names` -/
def fieldNames : List Text := sensitiveFieldNames ++ m.extraFieldNames.map m.lower

def isSensitive (key : Text) : Bool := m.lower key ∈ m.fieldNames

/-- A sensitive name in any case, or a configured one. -/
theorem isSensitive_iff (key : Text) : m.isSensitive key = true ↔
    m.lower key ∈ sensitiveFieldNames ∨ ∃ name ∈ m.extraFieldNames, m.lower name = m.lower key := by
  rw [isSensitive, decide_eq_true_eq, fieldNames, List.mem_append, List.mem_map]

mutual

/-- `mask_object` with masking enabled. -/
def maskObject : Json S → Json S
  | .scalar s => .scalar s
  | .str text => .str (m.maskText text)
  | .list items => .list (maskAll items)
  | .tuple items => .tuple (maskAll items)
  | .dict items => .dict (maskItems items)

def maskAll : List (Json S) → List (Json S)
  | [] => []
  | value :: items => maskObject value :: maskAll items

/-- `mask_value` of every item. -/
def maskItems : List (Text × Json S) → List (Text × Json S)
  | [] => []
  | (key, value) :: items => (key, if m.isSensitive key then .str redacted else maskObject value) :: maskItems items

end

/-- `mask_mapping` with masking enabled. -/
def maskMapping (data : List (Text × Json S)) : List (Text × Json S) := m.maskItems data

end FieldMasker

namespace Json

variable {S : Type}

mutual

/-- `==` of two objects, leaving out what is under an exempt key: dicts have the same keys, in
any order, and equal values under each. -/
def Same (exempt : Text → Bool) (eq : S → S → Prop) : Json S → Json S → Prop
  | scalar a, scalar b => eq a b
  | str a, str b => a = b
  | list as, list bs => SameAll exempt eq as bs
  | tuple as, tuple bs => SameAll exempt eq as bs
  | dict as, dict bs => SameItems exempt eq as bs ∧ ∀ item ∈ bs, item.1 ∈ as.map Prod.fst
  | _, _ => False

def SameAll (exempt : Text → Bool) (eq : S → S → Prop) : List (Json S) → List (Json S) → Prop
  | [], [] => True
  | a :: as, b :: bs => Same exempt eq a b ∧ SameAll exempt eq as bs
  | _, _ => False

/-- Every item has a counterpart. -/
def SameItems (exempt : Text → Bool) (eq : S → S → Prop) : List (Text × Json S) → List (Text × Json S) → Prop
  | [], _ => True
  | (key, a) :: as, bs => (∃ b, (key, b) ∈ bs ∧ (exempt key = true ∨ Same exempt eq a b)) ∧ SameItems exempt eq as bs

end

mutual

/-- The same keys and the same list lengths, wherever no exempt key lies above. -/
def Shaped (exempt : Text → Bool) : Json S → Json S → Prop
  | scalar a, scalar b => a = b
  | str _, str _ => True
  | list as, list bs => ShapedAll exempt as bs
  | tuple as, tuple bs => ShapedAll exempt as bs
  | dict as, dict bs => ShapedItems exempt as bs
  | _, _ => False

def ShapedAll (exempt : Text → Bool) : List (Json S) → List (Json S) → Prop
  | [], [] => True
  | a :: as, b :: bs => Shaped exempt a b ∧ ShapedAll exempt as bs
  | _, _ => False

def ShapedItems (exempt : Text → Bool) : List (Text × Json S) → List (Text × Json S) → Prop
  | [], [] => True
  | (key, a) :: as, (key', b) :: bs => key = key' ∧ (exempt key = true ∨ Shaped exempt a b) ∧ ShapedItems exempt as bs
  | _, _ => False

end

end Json

namespace FieldMasker

open Json

variable {S : Type} (m : FieldMasker)

/-! ## Two runs -/

theorem maskItems_keys (items : List (Text × Json S)) : (m.maskItems items).map Prod.fst = items.map Prod.fst := by
  induction items with
  | nil => rfl
  | cons item items ih => rw [maskItems, List.map_cons, List.map_cons, ih]

theorem mem_maskItems {items : List (Text × Json S)} {key : Text} {value : Json S} (h : (key, value) ∈ items) :
    (key, if m.isSensitive key then .str redacted else m.maskObject value) ∈ m.maskItems items := by
  induction items with
  | nil => cases h
  | cons item items ih =>
    rw [maskItems]
    rcases List.mem_cons.1 h with rfl | h
    · exact List.mem_cons_self
    · exact List.mem_cons_of_mem _ (ih h)

/-- The keys of the second mapping are keys of the first. -/
theorem maskItems_covered {as bs : List (Text × Json S)} (h : ∀ item ∈ bs, item.1 ∈ as.map Prod.fst) :
    ∀ item ∈ m.maskItems bs, item.1 ∈ (m.maskItems as).map Prod.fst := by
  intro item hitem
  have hkey : item.1 ∈ (m.maskItems bs).map Prod.fst := List.mem_map_of_mem hitem
  rw [maskItems_keys] at hkey ⊢
  obtain ⟨item', hitem', hkey⟩ := List.mem_map.1 hkey
  exact hkey ▸ h item' hitem'

variable {eq : S → S → Prop}

mutual

theorem maskObject_same : ∀ a b : Json S, Same m.isSensitive eq a b →
    Same (fun _ => false) eq (m.maskObject a) (m.maskObject b)
  | .scalar _, .scalar _, h => h
  | .str _, .str _, h => congrArg m.maskText h
  | .list as, .list bs, h => maskAll_same as bs h
  | .tuple as, .tuple bs, h => maskAll_same as bs h
  | .dict as, .dict bs, h => ⟨maskItems_same as bs h.1, m.maskItems_covered h.2⟩
  | .scalar _, .str _, h | .scalar _, .list _, h | .scalar _, .tuple _, h | .scalar _, .dict _, h => h.elim
  | .str _, .scalar _, h | .str _, .list _, h | .str _, .tuple _, h | .str _, .dict _, h => h.elim
  | .list _, .scalar _, h | .list _, .str _, h | .list _, .tuple _, h | .list _, .dict _, h => h.elim
  | .tuple _, .scalar _, h | .tuple _, .str _, h | .tuple _, .list _, h | .tuple _, .dict _, h => h.elim
  | .dict _, .scalar _, h | .dict _, .str _, h | .dict _, .list _, h | .dict _, .tuple _, h => h.elim

theorem maskAll_same : ∀ as bs : List (Json S), SameAll m.isSensitive eq as bs →
    SameAll (fun _ => false) eq (m.maskAll as) (m.maskAll bs)
  | [], [], _ => trivial
  | a :: as, b :: bs, h => ⟨maskObject_same a b h.1, maskAll_same as bs h.2⟩
  | [], _ :: _, h | _ :: _, [], h => h.elim

theorem maskItems_same : ∀ as bs : List (Text × Json S), SameItems m.isSensitive eq as bs →
    SameItems (fun _ => false) eq (m.maskItems as) (m.maskItems bs)
  | [], _, _ => trivial
  | (key, a) :: as, bs, h => by
    obtain ⟨⟨b, hb, hkey⟩, hrest⟩ := h
    refine ⟨⟨_, m.mem_maskItems hb, .inr ?_⟩, maskItems_same as bs hrest⟩
    by_cases hsensitive : m.isSensitive key = true
    · -- Under a sensitive key both runs have the same text.
      rw [if_pos hsensitive, if_pos hsensitive]
      exact rfl
    · rw [if_neg hsensitive, if_neg hsensitive]
      exact maskObject_same a b (hkey.resolve_left hsensitive)

end

/-! ## One run -/

mutual

theorem maskObject_shaped : ∀ a : Json S, Shaped m.isSensitive a (m.maskObject a)
  | .scalar _ => rfl
  | .str _ => trivial
  | .list items => maskAll_shaped items
  | .tuple items => maskAll_shaped items
  | .dict items => maskItems_shaped items

theorem maskAll_shaped : ∀ items : List (Json S), ShapedAll m.isSensitive items (m.maskAll items)
  | [] => trivial
  | a :: items => ⟨maskObject_shaped a, maskAll_shaped items⟩

theorem maskItems_shaped : ∀ items : List (Text × Json S), ShapedItems m.isSensitive items (m.maskItems items)
  | [] => trivial
  | (key, a) :: items => by
    -- What is under a sensitive key is replaced, whatever its shape.
    refine ⟨rfl, ?_, maskItems_shaped items⟩
    by_cases hsensitive : m.isSensitive key = true
    · exact .inl hsensitive
    · rw [if_neg hsensitive]
      exact .inr (maskObject_shaped a)

end

/-- Mappings that are equal except under sensitive keys have equal results, and the result has
the shape of the input. -/
theorem maskMapping_noninterference {as bs : List (Text × Json S)} (h : Same m.isSensitive eq (.dict as) (.dict bs)) :
    Same (fun _ => false) eq (.dict (m.maskMapping as)) (.dict (m.maskMapping bs)) ∧
    Shaped m.isSensitive (.dict as) (.dict (m.maskMapping as)) :=
  ⟨m.maskObject_same _ _ h, m.maskObject_shaped (.dict as)⟩

end FieldMasker

/-! ## Records -/

mutual

/-- A value of a record as such an object. -/
def Value.json : Value → Json Value
  | .str text => .str text
  | .list items => .list (jsonAll items)
  | .dict items => .dict (jsonItems items)
  | value => .scalar value

def jsonAll : List Value → List (Json Value)
  | [] => []
  | value :: items => value.json :: jsonAll items

def jsonItems : List (Text × Value) → List (Text × Json Value)
  | [] => []
  | (key, value) :: items => (key, value.json) :: jsonItems items

end

namespace ObjectMasker

variable {m : ObjectMasker} {extra : List Text}

/-- The masking of nested data with the rules of a masker. -/
def fields (m : ObjectMasker) (extra : List Text) : FieldMasker := ⟨m.maskText, m.lower, extra⟩

mutual

/-- The masking of records is that of objects. -/
theorem maskObject_json (henabled : m.enabled = true) (hnames : m.fieldNames = sensitiveFieldNames ++ extra.map m.lower) :
    ∀ value : Value, (m.maskObject value).json = (m.fields extra).maskObject value.json
  | .none | .bool _ | .int _ | .float _ | .datetime _ => rfl
  | .str _ => rfl
  | .list items => by
    rw [maskObject, if_pos henabled, Value.json, Value.json, maskList_json henabled hnames items]
    rfl
  | .dict items => by
    rw [maskObject, if_pos henabled, Value.json, Value.json, maskItems_json henabled hnames items]
    rfl

theorem maskList_json (henabled : m.enabled = true) (hnames : m.fieldNames = sensitiveFieldNames ++ extra.map m.lower) :
    ∀ items : List Value, jsonAll (m.maskList items) = (m.fields extra).maskAll (jsonAll items)
  | [] => rfl
  | value :: items => by
    rw [maskList, jsonAll, jsonAll, FieldMasker.maskAll, maskObject_json henabled hnames value,
      maskList_json henabled hnames items]

theorem maskItems_json (henabled : m.enabled = true) (hnames : m.fieldNames = sensitiveFieldNames ++ extra.map m.lower) :
    ∀ items : List (Text × Value), jsonItems (m.maskItems items) = (m.fields extra).maskItems (jsonItems items)
  | [] => rfl
  | (key, value) :: items => by
    -- Both look a key up in lower case, among the same names.
    have hkey : (m.fields extra).isSensitive key = decide (m.lower key ∈ m.fieldNames) := by
      rw [hnames]
      rfl
    rw [maskItems, jsonItems, jsonItems, FieldMasker.maskItems, maskItems_json henabled hnames items,
      ← maskObject_json henabled hnames value, hkey]
    by_cases hsensitive : m.lower key ∈ m.fieldNames
    · simp only [hsensitive, if_true, decide_true, Value.json]
    · simp only [hsensitive, if_false, decide_false, Bool.false_eq_true]

end

end ObjectMasker

/-! ## Two mappings -/

/-- `{"user": {"Password": password}, "tags": ("new",)}` -/
def passwordMapping (password : String) : List (Text × Json Bool) :=
  [(Text.ofString "user", .dict [(Text.ofString "Password", .str (Text.ofString password))]),
    (Text.ofString "tags", .tuple [.str (Text.ofString "new")])]

def asciiFields : FieldMasker := ⟨fun _ => redacted, List.map Text.asciiLower, []⟩

theorem maskMapping_noninterference_password :
    Json.Same asciiFields.isSensitive (· = ·) (.dict (passwordMapping "hunter2")) (.dict (passwordMapping "letmein").reverse) ∧
    Json.Same (fun _ => false) (· = ·) (.dict (asciiFields.maskMapping (passwordMapping "hunter2")))
      (.dict (asciiFields.maskMapping (passwordMapping "letmein").reverse)) ∧
    Json.Shaped asciiFields.isSensitive (.dict (passwordMapping "hunter2"))
      (.dict (asciiFields.maskMapping (passwordMapping "hunter2"))) := by
  have hpassword : asciiFields.isSensitive (Text.ofString "Password") = true := by decide
  have hsame : Json.Same asciiFields.isSensitive (· = ·) (.dict (passwordMapping "hunter2"))
      (.dict (passwordMapping "letmein").reverse) := by
    have huser : Json.Same asciiFields.isSensitive (· = ·) (.dict [(Text.ofString "Password", Json.str (Text.ofString "hunter2"))])
        (.dict [(Text.ofString "Password", Json.str (Text.ofString "letmein"))] : Json Bool) :=
      ⟨⟨⟨_, List.mem_cons_self, .inl hpassword⟩, trivial⟩, by simp⟩
    have htags : Json.Same asciiFields.isSensitive (· = ·) (.tuple [.str (Text.ofString "new")])
        (.tuple [.str (Text.ofString "new")] : Json Bool) := ⟨rfl, trivial⟩
    refine ⟨⟨⟨_, List.mem_cons_of_mem _ List.mem_cons_self, .inr huser⟩, ⟨_, List.mem_cons_self, .inr htags⟩, trivial⟩, ?_⟩
    simp [passwordMapping]
  exact ⟨hsame, asciiFields.maskMapping_noninterference hsame⟩

end LogAnalytics
