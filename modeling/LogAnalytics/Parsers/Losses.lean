import LogAnalytics.Parsers.Mapping
import LogAnalytics.Pipeline.Assembly
/-!
# What becomes of the leaves

Which values of a record `map_structured_record` keeps, in a field or in the metadata. The metadata
is under folded keys, so a value can be written over another's, and a field drops what it cannot
coerce.
-/

namespace LogAnalytics

/-- A value that is not a mapping to be flattened, and the names `flatten` may give it. -/
structure Leaf where
  names : List Text
  value : Value

/-- Within the object `name`, a leaf also goes by what is left of its names behind that of the
object. -/
def Leaf.within (name : Text) (leaf : Leaf) : Leaf :=
  { leaf with names := leaf.names ++ (leaf.names.map (·.drop (name.length + 1))).filter (· ≠ []) }

/-- The leaves of a record, with the depth that is left. -/
def leavesFrom : Nat → Text → Dict → List Leaf
  | 0, namePrefix, record => record.map fun item => ⟨[namePrefix ++ item.1], item.2⟩
  | depth + 1, namePrefix, record =>
    record.flatMap fun item =>
      let name := namePrefix ++ item.1
      match item.2 with
      | .dict nested => (leavesFrom depth (name ++ [Timeutil.char '_']) nested).map (Leaf.within name)
      | value => [⟨[name], value⟩]

def leaves (record : Dict) : List Leaf := leavesFrom maxFlattenDepth [] record

/-! ## Flattening -/

/-- The keys of a nested object go by their dotted names and by what is left of these. -/
theorem mem_absorbNested {name : Text} {out nested : Dict} {item : Text × Value} (h : item ∈ absorbNested name out nested) :
    item ∈ out ∨ item ∈ nested ∨
      ∃ other ∈ nested, other.1.drop (name.length + 1) ≠ [] ∧ item = (other.1.drop (name.length + 1), other.2) := by
  have hdotted : ∀ items out : Dict, item ∈ items.foldl (fun out item => out.setdefault item.1 item.2) out →
      item ∈ out ∨ item ∈ items := by
    intro items
    induction items with
    | nil => exact fun out h => .inl h
    | cons x items ih =>
      intro out h
      rcases ih _ h with h | h
      · exact (Dict.mem_setdefault h).imp_right fun heq => List.mem_cons.2 (.inl heq)
      · exact .inr (List.mem_cons_of_mem _ h)
  have hleaves : ∀ items out : Dict, item ∈ items.foldl (fun out item =>
        let leaf := item.1.drop (name.length + 1)
        if leaf = [] then out else out.setdefault leaf item.2) out →
      item ∈ out ∨ ∃ other ∈ items, other.1.drop (name.length + 1) ≠ [] ∧
        item = (other.1.drop (name.length + 1), other.2) := by
    intro items
    induction items with
    | nil => exact fun out h => .inl h
    | cons x items ih =>
      intro out h
      rcases ih _ h with h | ⟨other, hother, hitem⟩
      · dsimp only at h
        split at h
        · exact .inl h
        · next hleaf =>
          exact (Dict.mem_setdefault h).imp_right fun heq => ⟨x, List.mem_cons_self, hleaf, heq⟩
      · exact .inr ⟨other, List.mem_cons_of_mem _ hother, hitem⟩
  rcases hleaves nested _ h with h | h
  · exact (hdotted nested out h).imp_right .inl
  · exact .inr (.inr h)

/-- What an item adds to the flattened record, with the depth that is left. -/
def flattenItem (depth : Nat) (namePrefix : Text) (out : Dict) (item : Text × Value) : Dict :=
  match item.2, depth with
  | .dict nested, depth + 1 =>
    absorbNested (namePrefix ++ item.1) out (flattenFrom depth (namePrefix ++ item.1 ++ [Timeutil.char '_']) nested)
  | value, _ => out.set (namePrefix ++ item.1) value

theorem flattenFrom_eq (depth : Nat) (namePrefix : Text) (record : Dict) :
    flattenFrom depth namePrefix record = record.foldl (flattenItem depth namePrefix) [] := by
  have h : ∀ (f g : Dict → Text × Value → Dict), (∀ out item, f out item = g out item) → record.foldl f [] = record.foldl g [] := by
    intro f g hfg
    rw [funext fun out => funext fun item => hfg out item]
  cases depth with
  | zero =>
    delta flattenFrom
    refine h _ _ fun out item => ?_
    obtain ⟨key, value⟩ := item
    cases value <;> rfl
  | succ depth =>
    delta flattenFrom
    refine h _ _ fun out item => ?_
    obtain ⟨key, value⟩ := item
    cases value with
    | dict nested =>
      delta flattenItem flattenFrom
      rfl
    | _ => rfl

/-- The leaves in an item, with the depth that is left. -/
def leavesItem (depth : Nat) (namePrefix : Text) (item : Text × Value) : List Leaf :=
  match item.2, depth with
  | .dict nested, depth + 1 =>
    (leavesFrom depth (namePrefix ++ item.1 ++ [Timeutil.char '_']) nested).map (Leaf.within (namePrefix ++ item.1))
  | value, _ => [⟨[namePrefix ++ item.1], value⟩]

theorem leavesFrom_eq (depth : Nat) (namePrefix : Text) (record : Dict) :
    leavesFrom depth namePrefix record = record.flatMap (leavesItem depth namePrefix) := by
  cases depth with
  | zero =>
    rw [leavesFrom, List.map_eq_flatMap]
    refine congrArg (List.flatMap · record) (funext fun item => ?_)
    obtain ⟨key, value⟩ := item
    cases value <;> rfl
  | succ depth =>
    rw [leavesFrom]
    refine congrArg (List.flatMap · record) (funext fun item => ?_)
    obtain ⟨key, value⟩ := item
    cases value <;> rfl

/-- The entry is a leaf, under one of its names. -/
def Names (leaf : Leaf) (entry : Text × Value) : Prop := entry.1 ∈ leaf.names ∧ entry.2 = leaf.value

theorem exists_leaf_of_mem_item {depth : Nat} {namePrefix : Text} {out : Dict} {item entry : Text × Value}
    (hnested : ∀ d, depth = d + 1 → ∀ name nested, ∀ entry ∈ flattenFrom d name nested,
      ∃ leaf ∈ leavesFrom d name nested, Names leaf entry)
    (h : entry ∈ flattenItem depth namePrefix out item) :
    entry ∈ out ∨ ∃ leaf ∈ leavesItem depth namePrefix item, Names leaf entry := by
  unfold flattenItem at h
  unfold leavesItem
  split at h
  · next nested d hvalue =>
    have hleaf := hnested d rfl (namePrefix ++ item.1 ++ [Timeutil.char '_']) nested
    rcases mem_absorbNested h with h | h | ⟨other, hother, hne, rfl⟩
    · exact .inl h
    · obtain ⟨leaf, hmem, hname, hleafvalue⟩ := hleaf entry h
      exact .inr ⟨_, List.mem_map_of_mem hmem, List.mem_append_left _ hname, hleafvalue⟩
    · obtain ⟨leaf, hmem, hname, hleafvalue⟩ := hleaf other hother
      refine .inr ⟨_, List.mem_map_of_mem hmem, List.mem_append_right _ (List.mem_filter.2
        ⟨List.mem_map.2 ⟨other.1, hname, rfl⟩, ?_⟩), hleafvalue⟩
      simpa using hne
  · refine (Dict.mem_set h).imp_right ?_
    rintro rfl
    exact ⟨_, List.mem_cons_self, List.mem_cons_self, rfl⟩

/-- Nothing is in the flattened record that is no leaf of the record. -/
theorem exists_leaf_of_mem (depth : Nat) : ∀ (namePrefix : Text) (record : Dict), ∀ entry ∈ flattenFrom depth namePrefix record,
    ∃ leaf ∈ leavesFrom depth namePrefix record, Names leaf entry := by
  have hrecord : ∀ depth, (∀ d, depth = d + 1 → ∀ name nested, ∀ entry ∈ flattenFrom d name nested,
        ∃ leaf ∈ leavesFrom d name nested, Names leaf entry) →
      ∀ (namePrefix : Text) (record out : Dict), ∀ entry ∈ record.foldl (flattenItem depth namePrefix) out,
        entry ∈ out ∨ ∃ leaf ∈ record.flatMap (leavesItem depth namePrefix), Names leaf entry := by
    intro depth hnested namePrefix record
    induction record with
    | nil => exact fun out entry h => .inl h
    | cons item record ih =>
      intro out entry h
      rw [List.flatMap_cons]
      rcases ih _ entry h with h | ⟨leaf, hmem, hnames⟩
      · refine (exists_leaf_of_mem_item hnested h).imp_right ?_
        rintro ⟨leaf, hmem, hnames⟩
        exact ⟨leaf, List.mem_append_left _ hmem, hnames⟩
      · exact .inr ⟨leaf, List.mem_append_right _ hmem, hnames⟩
  have hflatten : ∀ depth, (∀ d, depth = d + 1 → ∀ name nested, ∀ entry ∈ flattenFrom d name nested,
        ∃ leaf ∈ leavesFrom d name nested, Names leaf entry) →
      ∀ (namePrefix : Text) (record : Dict), ∀ entry ∈ flattenFrom depth namePrefix record,
        ∃ leaf ∈ leavesFrom depth namePrefix record, Names leaf entry := by
    intro depth hnested namePrefix record entry h
    rw [flattenFrom_eq] at h
    rw [leavesFrom_eq]
    exact (hrecord depth hnested namePrefix record [] entry h).resolve_left List.not_mem_nil
  induction depth with
  | zero => exact hflatten 0 fun d h => by cases h
  | succ depth ih =>
    refine hflatten (depth + 1) fun d h => ?_
    cases h
    exact ih

/-! ## What is kept -/

def environmentRaw : Text := Text.ofString "environment_raw"

def statusCodeRaw : Text := Text.ofString "status_code_raw"

/-- The leaf is under some key of the metadata, or the field one of its names is an alias of has
its coerced value, which for a status may be in the metadata too. -/
def Appears (py : Python) (now : Clock) (out : MappedRecord) (leaf : Leaf) : Prop :=
  (∃ key, out.fields.metadata.get? key = some leaf.value) ∨
    ∃ name ∈ leaf.names, ∃ canonical, fieldOf py name = some canonical ∧
      (coerceItem py now canonical (name, leaf.value) = .ok (out.field canonical) ∧ (out.field canonical).isSome = true ∨
        canonical = .statusCode ∧ ∃ z, coerceInt py leaf.value = .ok (some z) ∧
          ∃ key, out.fields.metadata.get? key = some (.int z))

/-- Flattened and mapped, the record still shows every leaf that is neither null nor empty. -/
def KeepsLeaves (py : Python) (now : Clock) (record : Dict) : Prop :=
  ∀ leaf ∈ leaves record, leaf.value.isPresent = true →
    ∃ out, mapRecord py now (flatten record) = .ok out ∧ Appears py now out leaf

/-! ## The condition -/

/-- Behind `before`, the item is no longer needed for a field, and its value is there. -/
def Spare (py : Python) (before : Dict) (item : Text × Value) : Prop :=
  item.2.isPresent = true ∧ ∀ canonical, fieldOf py item.1 = some canonical →
    ∃ other ∈ before, fieldOf py other.1 = some canonical

/-- A spare item whose key no later spare key folds to. -/
def LastSpare (py : Python) (flat : Dict) (item : Text × Value) : Prop :=
  ∃ before after, flat = before ++ item :: after ∧ Spare py before item ∧
    ∀ b other a, after = b ++ other :: a → Spare py (before ++ item :: b) other →
      normaliseKey py other.1 ≠ normaliseKey py item.1

/-- The environment taken is no environment. -/
def StrangeEnvironment (py : Python) (flat : Dict) (value : Value) : Prop :=
  ∃ item, taken py flat .environment = some item ∧ item.2 = value ∧ environmentValue py value = .ok none

/-- The status taken is out of range. -/
def StrangeStatus (py : Python) (flat : Dict) (z : Int) : Prop :=
  ∃ item, taken py flat .statusCode = some item ∧ coerceInt py item.2 = .ok (some z) ∧ inStatusRange z = false

/-- The key is that of a raw value, and there is one. -/
def Overwritten (py : Python) (flat : Dict) (key : Text) : Prop :=
  key = environmentRaw ∧ (∃ value, StrangeEnvironment py flat value) ∨ key = statusCodeRaw ∧ ∃ z, StrangeStatus py flat z

/-- The value is under the last spare key that folds to its own and is not needed for a raw value,
or it is a raw value. -/
def Stays (py : Python) (flat : Dict) (value : Value) : Prop :=
  (∃ item, LastSpare py flat item ∧ item.2 = value ∧ ¬ Overwritten py flat (normaliseKey py item.1)) ∨
  StrangeEnvironment py flat value ∨ ∃ z, StrangeStatus py flat z ∧ value = .int z

/-- The value of the leaf stays, or the key taken for a field it is an alias of has the same coerced
value. -/
def Kept (py : Python) (now : Clock) (flat : Dict) (leaf : Leaf) : Prop :=
  Stays py flat leaf.value ∨
    ∃ name ∈ leaf.names, ∃ canonical, fieldOf py name = some canonical ∧
      ((∃ value, takenField py now flat canonical = .ok value ∧ value.isSome = true ∧
          coerceItem py now canonical (name, leaf.value) = .ok value) ∨
        canonical = .statusCode ∧ ∃ z, coerceInt py leaf.value = .ok (some z) ∧ Stays py flat (.int z))

variable {py : Python} {now : Clock} {flat : Dict}

/-! ## The metadata of the loop -/

theorem isSome_find?_mapStructuredRecord {canonical : Canonical} :
    ((mapStructuredRecord py flat).find? canonical).isSome = true ↔ ∃ item ∈ flat, fieldOf py item.1 = some canonical := by
  rw [find?_mapStructuredRecord, Option.isSome_map, taken, List.find?_isSome]
  simp

/-- A spare item is written to the metadata. -/
theorem metadata_mapField_of_spare {item : Text × Value} (h : Spare py flat item) :
    (mapField py (mapStructuredRecord py flat) item).metadata =
      (mapStructuredRecord py flat).metadata.set (normaliseKey py item.1) item.2 := by
  obtain ⟨hpresent, htaken⟩ := h
  unfold mapField
  dsimp only
  cases hfield : (aliasIndex.find? fun x => Text.ofString x.1 = normaliseKey py item.1).map (·.2) with
  | none =>
    dsimp only
    rw [if_pos hpresent]
  | some canonical =>
    dsimp only
    rw [if_pos (isSome_find?_mapStructuredRecord.2 (htaken canonical hfield)), if_pos hpresent]

/-- Nothing else is. -/
theorem metadata_mapField_of_not_spare {item : Text × Value} (h : ¬ Spare py flat item) :
    (mapField py (mapStructuredRecord py flat) item).metadata = (mapStructuredRecord py flat).metadata := by
  unfold mapField
  dsimp only
  cases hfield : (aliasIndex.find? fun x => Text.ofString x.1 = normaliseKey py item.1).map (·.2) with
  | none =>
    dsimp only
    rw [if_neg]
    refine fun hpresent => h ⟨hpresent, fun canonical hcanonical => ?_⟩
    rw [fieldOf, hfield] at hcanonical
    cases hcanonical
  | some canonical =>
    dsimp only
    split
    · next hsome =>
      rw [if_neg]
      refine fun hpresent => h ⟨hpresent, fun other hother => ?_⟩
      rw [fieldOf, hfield] at hother
      cases hother
      exact isSome_find?_mapStructuredRecord.1 hsome
    · rfl

/-- Another item at the end of the record: it is the last of its key if it is spare. -/
theorem lastSpare_snoc {x item : Text × Value} : LastSpare py (flat ++ [x]) item ↔
    item = x ∧ Spare py flat x ∨
      LastSpare py flat item ∧ ¬ (Spare py flat x ∧ normaliseKey py x.1 = normaliseKey py item.1) := by
  constructor
  · rintro ⟨before, after, hsplit, hspare, hlast⟩
    rcases List.eq_nil_or_concat' after with rfl | ⟨after, y, rfl⟩
    · obtain ⟨rfl, heq⟩ := List.append_inj' hsplit rfl
      cases heq
      exact .inl ⟨rfl, hspare⟩
    · rw [← List.cons_append, ← List.append_assoc] at hsplit
      obtain ⟨rfl, heq⟩ := List.append_inj' hsplit rfl
      cases heq
      refine .inr ⟨⟨before, after, rfl, hspare, fun b other a hafter hother => ?_⟩, fun h => ?_⟩
      · exact hlast b other (a ++ [x]) (by rw [hafter, List.append_assoc, List.cons_append]) hother
      · exact hlast after x [] rfl h.1 h.2
  · rintro (⟨rfl, hspare⟩ | ⟨⟨before, after, rfl, hspare, hlast⟩, hnot⟩)
    · exact ⟨flat, [], rfl, hspare, fun b other a h => by simp at h⟩
    · refine ⟨before, after ++ [x], by rw [List.append_assoc, List.cons_append], hspare, fun b other a hafter hother hkey => ?_⟩
      rcases List.eq_nil_or_concat' a with rfl | ⟨a, y, rfl⟩
      · obtain ⟨rfl, heq⟩ := List.append_inj' hafter rfl
        cases heq
        exact hnot ⟨hother, hkey⟩
      · rw [← List.cons_append, ← List.append_assoc] at hafter
        obtain ⟨rfl, heq⟩ := List.append_inj' hafter rfl
        exact hlast b other a rfl hother hkey

theorem get?_metadata_iff {key : Text} {value : Value} :
    (mapStructuredRecord py flat).metadata.get? key = some value ↔
      ∃ item, LastSpare py flat item ∧ normaliseKey py item.1 = key ∧ item.2 = value := by
  induction flat using List.reverseRecOn generalizing value with
  | nil =>
    refine iff_of_false (fun h => by cases h) ?_
    rintro ⟨item, ⟨before, after, hsplit, -⟩, -⟩
    simp at hsplit
  | append_singleton flat x ih =>
    have hstep : mapStructuredRecord py (flat ++ [x]) = mapField py (mapStructuredRecord py flat) x := List.foldl_concat _ _ _ _
    rw [hstep]
    simp only [lastSpare_snoc]
    by_cases hspare : Spare py flat x
    · rw [metadata_mapField_of_spare hspare, Dict.get?_set]
      by_cases hkey : key = normaliseKey py x.1
      · subst hkey
        rw [if_pos rfl]
        constructor
        · intro h
          exact ⟨x, .inl ⟨rfl, hspare⟩, rfl, Option.some.inj h⟩
        · rintro ⟨item, ⟨rfl, -⟩ | ⟨-, hnot⟩, hitem, rfl⟩
          · rfl
          · exact absurd ⟨hspare, hitem.symm⟩ hnot
      · rw [if_neg hkey, ih]
        constructor
        · rintro ⟨item, hlast, rfl, rfl⟩
          exact ⟨item, .inr ⟨hlast, fun h => hkey h.2.symm⟩, rfl, rfl⟩
        · rintro ⟨item, ⟨rfl, -⟩ | ⟨hlast, -⟩, hitem, hvalue⟩
          · exact absurd hitem.symm hkey
          · exact ⟨item, hlast, hitem, hvalue⟩
    · rw [metadata_mapField_of_not_spare hspare, ih]
      constructor
      · rintro ⟨item, hlast, hitem⟩
        exact ⟨item, .inr ⟨hlast, fun h => hspare h.1⟩, hitem⟩
      · rintro ⟨item, ⟨-, h⟩ | ⟨hlast, -⟩, hitem⟩
        · exact absurd h hspare
        · exact ⟨item, hlast, hitem⟩

/-! ## The raw values -/

theorem strangeEnvironment_iff {item : Text × Value} (h : taken py flat .environment = some item) {value : Value} :
    StrangeEnvironment py flat value ↔ item.2 = value ∧ environmentValue py item.2 = .ok none := by
  constructor
  · rintro ⟨other, hother, rfl, hnone⟩
    cases h.symm.trans hother
    exact ⟨rfl, hnone⟩
  · rintro ⟨rfl, hnone⟩
    exact ⟨item, h, rfl, hnone⟩

theorem strangeStatus_iff {item : Text × Value} (h : taken py flat .statusCode = some item) {z : Int} :
    StrangeStatus py flat z ↔ coerceInt py item.2 = .ok (some z) ∧ inStatusRange z = false := by
  constructor
  · rintro ⟨other, hother, hstrange⟩
    cases h.symm.trans hother
    exact hstrange
  · exact fun hstrange => ⟨item, h, hstrange⟩

/-- Behind the environment, `environment_raw` may have been written. -/
theorem get?_environmentField {environment : Option Environment} {metadata : Dict}
    (h : environmentField py (mapStructuredRecord py flat) = .ok (environment, metadata)) {key : Text} {value : Value} :
    metadata.get? key = some value ↔
      key = environmentRaw ∧ StrangeEnvironment py flat value ∨
      (mapStructuredRecord py flat).metadata.get? key = some value ∧
        ¬ (key = environmentRaw ∧ ∃ value, StrangeEnvironment py flat value) := by
  have hfound : (mapStructuredRecord py flat).find? .environment = _ := find?_mapStructuredRecord _
  cases htaken : taken py flat .environment with
  | none =>
    have hnone : ∀ value, ¬ StrangeEnvironment py flat value := by
      rintro value ⟨item, hitem, -⟩
      cases htaken.symm.trans hitem
    rw [htaken] at hfound
    unfold environmentField at h
    rw [hfound] at h
    cases h
    simp [hnone]
  | some item =>
    rw [htaken] at hfound
    rw [environmentField_some hfound, Lib.map_ok] at h
    obtain ⟨found, hvalue, heq⟩ := h
    cases heq
    simp only [strangeEnvironment_iff htaken, hvalue, Except.ok.injEq]
    cases environment with
    | none =>
      rw [if_pos rfl, Dict.get?_set]
      by_cases hkey : key = environmentRaw
      · subst hkey
        rw [environmentRaw, if_pos rfl]
        simp
      · rw [if_neg (show key ≠ Text.ofString "environment_raw" from hkey)]
        simp [hkey]
    | some found =>
      rw [if_neg (Option.some_ne_none _)]
      simp

/-- And behind the status, `status_code_raw`. -/
theorem get?_statusRaw {status : Option Int} (h : coerceInt py ((mapStructuredRecord py flat).get .statusCode) = .ok status)
    (metadata : Dict) {key : Text} {value : Value} :
    (match status with
      | some status => if inStatusRange status then metadata else metadata.set statusCodeRaw (.int status)
      | none => metadata).get? key = some value ↔
      key = statusCodeRaw ∧ (∃ z, StrangeStatus py flat z ∧ value = .int z) ∨
      metadata.get? key = some value ∧ ¬ (key = statusCodeRaw ∧ ∃ z, StrangeStatus py flat z) := by
  rw [Mapped.get, find?_mapStructuredRecord] at h
  cases htaken : taken py flat .statusCode with
  | none =>
    have hnone : ∀ z, ¬ StrangeStatus py flat z := by
      rintro z ⟨item, hitem, -⟩
      cases htaken.symm.trans hitem
    rw [htaken] at h
    cases h
    simp [hnone]
  | some item =>
    rw [htaken] at h
    simp only [Option.map_some, Option.getD_some] at h
    simp only [strangeStatus_iff htaken, h, Except.ok.injEq]
    cases status with
    | none => simp
    | some z =>
      cases hrange : inStatusRange z with
      | true => simp [hrange]
      | false =>
        dsimp only
        rw [if_neg (by simp [hrange]), Dict.get?_set]
        by_cases hkey : key = statusCodeRaw
        · subst hkey
          rw [if_pos rfl]
          constructor
          · intro h
            exact .inl ⟨rfl, z, ⟨rfl, hrange⟩, (Option.some.inj h).symm⟩
          · rintro (⟨-, z', ⟨hz, -⟩, rfl⟩ | ⟨-, hnot⟩)
            · cases hz
              rfl
            · exact absurd ⟨rfl, z, rfl, hrange⟩ hnot
        · rw [if_neg hkey]
          simp [hkey]

theorem metadata_of_coerceMapped {m : Mapped} {fields : Fields} {environment : Option Environment}
    (h : coerceMapped py m = .ok (fields, environment)) :
    ∃ metadata status, environmentField py m = .ok (environment, metadata) ∧ coerceInt py (m.get .statusCode) = .ok status ∧
      fields.metadata = match status with
        | some status => if inStatusRange status then metadata else metadata.set statusCodeRaw (.int status)
        | none => metadata := by
  unfold coerceMapped at h
  iterate 11 obtain ⟨_, -, h⟩ := Lib.bind_ok.1 h
  obtain ⟨⟨found, metadata⟩, henvironment, h⟩ := Lib.bind_ok.1 h
  obtain ⟨_, -, h⟩ := Lib.bind_ok.1 h
  obtain ⟨status, hstatus, h⟩ := Lib.bind_ok.1 h
  iterate 2 obtain ⟨_, -, h⟩ := Lib.bind_ok.1 h
  cases h
  exact ⟨metadata, status, henvironment, hstatus, rfl⟩

/-- The metadata a record ends up with. -/
theorem get?_metadata_mapRecord {out : MappedRecord} (h : mapRecord py now flat = .ok out) {key : Text} {value : Value} :
    out.fields.metadata.get? key = some value ↔
      (∃ item, LastSpare py flat item ∧ normaliseKey py item.1 = key ∧ item.2 = value) ∧ ¬ Overwritten py flat key ∨
      key = environmentRaw ∧ StrangeEnvironment py flat value ∨
      key = statusCodeRaw ∧ ∃ z, StrangeStatus py flat z ∧ value = .int z := by
  unfold mapRecord at h
  obtain ⟨timestamp, -, h⟩ := Lib.bind_ok.1 h
  obtain ⟨⟨fields, environment⟩, hmapped, h⟩ := Lib.bind_ok.1 h
  cases h
  obtain ⟨metadata, status, henvironment, hstatus, hmetadata⟩ := metadata_of_coerceMapped hmapped
  have hne : environmentRaw ≠ statusCodeRaw := by decide
  dsimp only
  rw [hmetadata, get?_statusRaw hstatus, get?_environmentField henvironment, get?_metadata_iff, Overwritten]
  by_cases hkey : key = environmentRaw
  · subst hkey
    simp only [hne, false_and, not_false_eq_true, and_true, true_and, false_or, or_comm]
  · simp only [hkey, false_and, false_or, not_false_eq_true, and_true]
    exact or_comm

theorem exists_mapRecord : (∃ out, mapRecord py now flat = .ok out) ↔
    ∀ canonical, ∃ value, takenField py now flat canonical = .ok value := by
  have hfields := canonicalFields_mapRecord py now flat
  constructor
  · rintro ⟨out, hout⟩ canonical
    exact ⟨_, field_of_mapRecord hout canonical⟩
  · intro h
    obtain ⟨values, hvalues⟩ := Lib.exists_mapM.2 fun canonical (_ : canonical ∈ MappedRecord.readingOrder) => h canonical
    rw [hvalues] at hfields
    obtain ⟨out, hout, -⟩ := Lib.map_ok.1 hfields
    exact ⟨out, hout⟩

theorem stays_iff {out : MappedRecord} (h : mapRecord py now flat = .ok out) (value : Value) :
    (∃ key, out.fields.metadata.get? key = some value) ↔ Stays py flat value := by
  simp only [get?_metadata_mapRecord h]
  constructor
  · rintro ⟨key, ⟨⟨item, hlast, rfl, hvalue⟩, hkept⟩ | ⟨-, hstrange⟩ | ⟨-, hstrange⟩⟩
    · exact .inl ⟨item, hlast, hvalue, hkept⟩
    · exact .inr (.inl hstrange)
    · exact .inr (.inr hstrange)
  · rintro (⟨item, hlast, hvalue, hkept⟩ | hstrange | hstrange)
    · exact ⟨_, .inl ⟨⟨item, hlast, rfl, hvalue⟩, hkept⟩⟩
    · exact ⟨_, .inr (.inl ⟨rfl, hstrange⟩)⟩
    · exact ⟨_, .inr (.inr ⟨rfl, hstrange⟩)⟩

theorem appears_iff {out : MappedRecord} (h : mapRecord py now flat = .ok out) (leaf : Leaf) :
    Appears py now out leaf ↔ Kept py now flat leaf := by
  have hfield : ∀ canonical value, takenField py now flat canonical = .ok value ↔ out.field canonical = value :=
    fun canonical value => by rw [field_of_mapRecord h canonical, Except.ok.injEq]
  unfold Appears Kept
  simp only [stays_iff h, hfield, exists_eq_left', and_comm (b := _ = Except.ok _)]

/-- A record shows all its leaves exactly if every field can be coerced and every leaf is kept. -/
theorem keeps_leaves_iff (py : Python) (now : Clock) (record : Dict) :
    KeepsLeaves py now record ↔ ∀ leaf ∈ leaves record, leaf.value.isPresent = true →
      (∀ canonical, ∃ value, takenField py now (flatten record) canonical = .ok value) ∧ Kept py now (flatten record) leaf := by
  refine forall₂_congr fun leaf _ => imp_congr_right fun _ => ?_
  rw [← exists_mapRecord]
  constructor
  · rintro ⟨out, hout, happears⟩
    exact ⟨⟨out, hout⟩, (appears_iff hout leaf).1 happears⟩
  · rintro ⟨⟨out, hout⟩, hkept⟩
    exact ⟨out, hout, (appears_iff hout leaf).2 hkept⟩

/-- Its keys are canonical unless they have a hyphen. -/
def hyphenPython : Python :=
  { LogPipeline.plainPython LogPipeline.spelled with isCanonicalKey := fun key => key.all (· ≠ Timeutil.char '-') }

/-- Two keys that fold to one. -/
def shardIds : Dict := [(Text.ofString "shard-id", .int 1), (Text.ofString "shard_id", .int 2)]

theorem flatten_shardIds : flatten shardIds = shardIds := by
  delta flatten flattenFrom
  rfl

/-- The first of them is lost. -/
theorem shard_id_lost : ¬ KeepsLeaves hyphenPython (LogPipeline.noon 7 LogPipeline.valid_seventh) shardIds := by
  intro h
  obtain ⟨out, hout, happears⟩ := h ⟨[Text.ofString "shard-id"], .int 1⟩
    List.mem_cons_self rfl
  obtain ⟨out', hout', hmetadata⟩ : ∃ out, mapRecord hyphenPython (LogPipeline.noon 7 LogPipeline.valid_seventh)
      (flatten shardIds) = .ok out ∧ out.fields.metadata = [(Text.ofString "shard_id", .int 2)] := by
    rw [flatten_shardIds]
    exact ⟨_, by with_unfolding_all rfl, by with_unfolding_all rfl⟩
  cases hout.symm.trans hout'
  rcases happears with ⟨key, hkey⟩ | ⟨name, hname, canonical, hcanonical, -⟩
  · rw [hmetadata, Dict.get?_cons] at hkey
    split at hkey
    · cases hkey
    · cases hkey
  · rw [List.mem_singleton.1 hname] at hcanonical
    have hnone : fieldOf hyphenPython (Text.ofString "shard-id") = none := by with_unfolding_all rfl
    rw [hnone] at hcanonical
    cases hcanonical

end LogAnalytics
