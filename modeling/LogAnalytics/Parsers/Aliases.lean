import LogAnalytics.Parsers.Mapping
import LogAnalytics.Pipeline.Assembly
/-!
# Aliases in any order

A record can hold several aliases of one field. Which of them `map_structured_record` takes depends
on the order of the keys alone, whatever the values; `order_independent_iff` says when that makes
no difference.
-/

namespace LogAnalytics

variable {py : Python} {now : Clock} {record : Dict}

/-- The value is there and the field is set from it. -/
def Usable (py : Python) (now : Clock) (canonical : Canonical) (item : Text × Value) : Prop :=
  item.2.isPresent = true ∧ ∃ value, coerceItem py now canonical item = .ok value ∧ value.isSome = true

/-- Where the alias stands in `FIELD_ALIASES`. -/
def preference (py : Python) (key : Text) : Nat := aliasIndex.findIdx fun x => Text.ofString x.1 = normaliseKey py key

/-- Of the items that can be used for a field, one with the most preferred alias. -/
def Preferred (py : Python) (now : Clock) (record : Dict) (canonical : Canonical) (item : Text × Value) : Prop :=
  (item ∈ record ∧ fieldOf py item.1 = some canonical ∧ Usable py now canonical item) ∧
    ∀ other ∈ record, fieldOf py other.1 = some canonical → Usable py now canonical other →
      preference py item.1 ≤ preference py other.1

/-- The order of the keys plays no part in the canonical fields, each is taken from the most
preferred alias that can be used, and a timestamp is there if one can be read. -/
def FollowsPreference (py : Python) (now : Clock) (record : Dict) : Prop :=
  (∀ record', record'.Perm record → (mapRecord py now record').map MappedRecord.canonicalFields =
    (mapRecord py now record).map MappedRecord.canonicalFields) ∧
  ∀ out, mapRecord py now record = .ok out →
    (∀ canonical item, Preferred py now record canonical item →
      coerceItem py now canonical item = .ok (out.field canonical)) ∧
    ((∃ item ∈ record, fieldOf py item.1 = some .timestamp ∧
        ∃ t, Timeutil.parseTimestamp py.toTimeParsers now none item.2 = .ok (some t)) → out.timestamp.isSome = true)

/-- All aliases of a field give it the same value. -/
def AliasesAgree (py : Python) (now : Clock) (record : Dict) : Prop :=
  ∀ canonical, ∃ value, ∀ item ∈ record, fieldOf py item.1 = some canonical →
    coerceItem py now canonical item = .ok value

/-- Some field is reached of which every alias raises `exn`, and no other exception can come first. -/
def AlwaysRaises (py : Python) (now : Clock) (record : Dict) (exn : Exn) : List Canonical → Prop
  | [] => False
  | c :: cs =>
    (∀ item ∈ record, fieldOf py item.1 = some c → ∀ other, coerceItem py now c item = .error other → other = exn) ∧
      ((∃ item ∈ record, fieldOf py item.1 = some c) ∧
          (∀ item ∈ record, fieldOf py item.1 = some c → coerceItem py now c item = .error exn) ∨
        AlwaysRaises py now record exn cs)

/-! ## One item to the front -/

/-- An item of a field can come first, with the other fields taken as before. -/
theorem exists_front (now : Clock) {item : Text × Value} {canonical : Canonical} (hitem : item ∈ record)
    (hfield : fieldOf py item.1 = some canonical) :
    ∃ record', record'.Perm record ∧ takenField py now record' canonical = coerceItem py now canonical item ∧
      ∀ c ≠ canonical, takenField py now record' c = takenField py now record c := by
  obtain ⟨before, after, rfl⟩ := List.append_of_mem hitem
  refine ⟨item :: (before ++ after), List.perm_middle.symm, ?_, fun c hc => ?_⟩
  · rw [takenField, taken, List.find?_cons_of_pos (by simpa using hfield)]
    rfl
  · have hne : decide (fieldOf py item.1 = some c) = false := by simpa [hfield] using hc.symm
    simp only [takenField, taken, List.find?_append, List.find?_cons, hne]

theorem takenField_none {canonical : Canonical} (h : ∀ item ∈ record, fieldOf py item.1 ≠ some canonical) :
    takenField py now record canonical = coerceField py now canonical none := by
  rw [takenField, taken_eq_none.2 h]
  rfl

/-- A field is one of its items, or empty. -/
theorem takenField_cases (py : Python) (now : Clock) (record : Dict) (canonical : Canonical) :
    (∃ item ∈ record, fieldOf py item.1 = some canonical ∧
      takenField py now record canonical = coerceItem py now canonical item) ∨
    (∀ item ∈ record, fieldOf py item.1 ≠ some canonical) ∧
      takenField py now record canonical = coerceField py now canonical none := by
  cases htaken : taken py record canonical with
  | none => exact .inr ⟨taken_eq_none.1 htaken, by rw [takenField, htaken]; rfl⟩
  | some item =>
    obtain ⟨hmem, hfield⟩ := mem_of_taken htaken
    exact .inl ⟨item, hmem, hfield, by rw [takenField, htaken]; rfl⟩

/-- A field no key stands for raises nothing. -/
theorem coerceField_none (py : Python) (now : Clock) (canonical : Canonical) :
    ∃ value, coerceField py now canonical none = .ok value := by
  cases canonical <;> exact ⟨_, rfl⟩

/-! ## Agreement -/

theorem takenField_of_agree {canonical : Canonical} {record' : Dict} (hperm : record'.Perm record)
    (h : AliasesAgree py now record) : takenField py now record' canonical = takenField py now record canonical := by
  obtain ⟨value, hvalue⟩ := h canonical
  rcases takenField_cases py now record' canonical with ⟨item, hmem, hfield, htaken⟩ | ⟨hnone, htaken⟩
  · rcases takenField_cases py now record canonical with ⟨other, hmem', hfield', htaken'⟩ | ⟨hnone, -⟩
    · rw [htaken, htaken', hvalue item (hperm.mem_iff.1 hmem) hfield, hvalue other hmem' hfield']
    · exact absurd hfield (hnone item (hperm.mem_iff.1 hmem))
  · rw [htaken, takenField_none fun item hitem => hnone item (hperm.mem_iff.2 hitem)]

theorem takenField_of_mem {canonical : Canonical} {item : Text × Value} (h : AliasesAgree py now record)
    (hitem : item ∈ record) (hfield : fieldOf py item.1 = some canonical) :
    takenField py now record canonical = coerceItem py now canonical item := by
  obtain ⟨value, hvalue⟩ := h canonical
  rcases takenField_cases py now record canonical with ⟨other, hmem, hfield', htaken⟩ | ⟨hnone, -⟩
  · rw [htaken, hvalue item hitem hfield, hvalue other hmem hfield']
  · exact absurd hfield (hnone item hitem)

theorem followsPreference_of_agree (h : AliasesAgree py now record) : FollowsPreference py now record := by
  refine ⟨fun record' hperm => ?_, fun out hout => ⟨fun canonical item hpreferred => ?_, ?_⟩⟩
  · rw [canonicalFields_mapRecord, canonicalFields_mapRecord]
    exact congrArg (MappedRecord.readingOrder.mapM ·) (funext fun c => takenField_of_agree hperm h)
  · obtain ⟨⟨hmem, hfield, -⟩, -⟩ := hpreferred
    rw [← takenField_of_mem h hmem hfield]
    exact field_of_mapRecord hout canonical
  · rintro ⟨item, hmem, hfield, t, ht⟩
    have hfieldvalue := field_of_mapRecord hout .timestamp
    rw [takenField_of_mem h hmem hfield, coerceItem, coerceField] at hfieldvalue
    simp only [Option.map_some, Option.getD_some, ht, Except.map, MappedRecord.field, Except.ok.injEq,
      FieldValue.timestamp.injEq] at hfieldvalue
    rw [← hfieldvalue]
    rfl

/-! ## Records that are never mapped -/

theorem mapM_of_raises {exn : Exn} {cs : List Canonical} (h : AlwaysRaises py now record exn cs) {record' : Dict}
    (hperm : record'.Perm record) : cs.mapM (takenField py now record') = .error exn := by
  induction cs with
  | nil => cases h
  | cons c cs ih =>
    obtain ⟨honly, hrest⟩ := h
    rw [List.mapM_cons]
    cases htaken : takenField py now record' c with
    | error other =>
      rcases takenField_cases py now record' c with ⟨item, hmem, hfield, hitem⟩ | ⟨-, hnone⟩
      · rw [honly item (hperm.mem_iff.1 hmem) hfield other (hitem ▸ htaken)]
        rfl
      · obtain ⟨value, hvalue⟩ := coerceField_none py now c
        rw [htaken, hvalue] at hnone
        cases hnone
    | ok value =>
      rcases hrest with ⟨⟨some, hmem, hfield⟩, hall⟩ | hrest
      · exfalso
        rcases takenField_cases py now record' c with ⟨item, hmem', hfield', hitem⟩ | ⟨hnone, -⟩
        · rw [hall item (hperm.mem_iff.1 hmem') hfield', htaken] at hitem
          cases hitem
        · exact hnone some (hperm.mem_iff.2 hmem) hfield
      · have herror := ih hrest
        rw [herror]
        rfl

theorem raises_of_mapM {exn : Exn} {cs : List Canonical} (hnodup : cs.Nodup) {base : Dict}
    (h : ∀ record', record'.Perm base → cs.mapM (takenField py now record') = .error exn) :
    AlwaysRaises py now base exn cs := by
  induction cs with
  | nil => exact absurd (h base (List.Perm.refl _)) (by rw [List.mapM_nil]; exact fun h => by cases h)
  | cons c cs ih =>
    obtain ⟨hnew, hnodup⟩ := List.nodup_cons.1 hnodup
    have hfirst : ∀ item ∈ base, fieldOf py item.1 = some c → ∀ other, coerceItem py now c item = .error other → other = exn := by
      intro item hitem hfield other hother
      obtain ⟨record', hperm, htaken, -⟩ := exists_front now hitem hfield
      have hraise := h record' hperm
      rw [List.mapM_cons, htaken, hother] at hraise
      cases hraise
      rfl
    refine ⟨hfirst, ?_⟩
    by_cases hall : (∃ item ∈ base, fieldOf py item.1 = some c) ∧
        ∀ item ∈ base, fieldOf py item.1 = some c → coerceItem py now c item = .error exn
    · exact .inl hall
    · refine .inr (ih hnodup fun record' hperm => ?_)
      -- an arrangement in which the field raises nothing, the later fields being those of `record'`
      obtain ⟨arranged, harranged, ⟨value, hvalue⟩, hothers⟩ : ∃ arranged : Dict, arranged.Perm base ∧
          (∃ value, takenField py now arranged c = .ok value) ∧
          ∀ c' ≠ c, takenField py now arranged c' = takenField py now record' c' := by
        by_cases hsome : ∃ item ∈ base, fieldOf py item.1 = some c
        · obtain ⟨item, hitem, hfield, hok⟩ : ∃ item ∈ base, fieldOf py item.1 = some c ∧
              ∃ value, coerceItem py now c item = .ok value := by
            by_contra hnone
            refine hall ⟨hsome, fun item hitem hfield => ?_⟩
            cases hcoerce : coerceItem py now c item with
            | error other => rw [hfirst item hitem hfield other hcoerce]
            | ok value => exact absurd ⟨item, hitem, hfield, value, hcoerce⟩ hnone
          obtain ⟨arranged, harranged, htaken, hothers⟩ := exists_front now (hperm.mem_iff.2 hitem) hfield
          exact ⟨arranged, harranged.trans hperm, htaken ▸ hok, hothers⟩
        · refine ⟨record', hperm, ?_, fun _ _ => rfl⟩
          rw [takenField_none fun item hitem hfield => hsome ⟨item, hperm.mem_iff.1 hitem, hfield⟩]
          exact coerceField_none py now c
      have hraise := h arranged harranged
      rw [List.mapM_cons, hvalue] at hraise
      have hsame : cs.mapM (takenField py now arranged) = cs.mapM (takenField py now record') :=
        Lib.mapM_congr fun c' hc' => hothers c' fun heq => hnew (heq ▸ hc')
      rw [hsame] at hraise
      cases hcs : cs.mapM (takenField py now record') with
      | error other =>
        rw [hcs] at hraise
        cases hraise
        rfl
      | ok values =>
        rw [hcs] at hraise
        cases hraise

/-! ## The order of the keys -/

/-- Whatever the order of the keys, the fields follow the declared preference exactly if all aliases
of a field give it the same value, or the record raises the same exception in every order. -/
theorem order_independent_iff (py : Python) (now : Clock) (record : Dict) :
    FollowsPreference py now record ↔
      AliasesAgree py now record ∨ ∃ exn, AlwaysRaises py now record exn MappedRecord.readingOrder := by
  constructor
  · rintro ⟨hperm, -⟩
    simp only [canonicalFields_mapRecord] at hperm
    cases hresult : MappedRecord.readingOrder.mapM (takenField py now record) with
    | error exn =>
      rw [hresult] at hperm
      exact .inr ⟨exn, raises_of_mapM MappedRecord.readingOrder_nodup hperm⟩
    | ok values =>
      rw [hresult] at hperm
      refine .inl fun canonical => ?_
      have hcanonical := MappedRecord.mem_readingOrder canonical
      obtain ⟨value, hvalue⟩ := Lib.exists_mapM.1 ⟨values, hresult⟩ canonical hcanonical
      refine ⟨value, fun item hitem hfield => ?_⟩
      obtain ⟨record', hrecord', htaken, -⟩ := exists_front now hitem hfield
      rw [← htaken, Lib.eq_of_mapM_eq (hperm record' hrecord') hresult canonical hcanonical, hvalue]
  · rintro (hagree | ⟨exn, hraises⟩)
    · exact followsPreference_of_agree hagree
    · have herror := mapM_of_raises hraises (List.Perm.refl record)
      refine ⟨fun record' hperm => ?_, fun out hout => ?_⟩
      · rw [canonicalFields_mapRecord, canonicalFields_mapRecord, herror, mapM_of_raises hraises hperm]
      · rw [← canonicalFields_mapRecord, hout] at herror
        cases herror

/-- It reads one ISO time. -/
def isoPython : Python :=
  { LogPipeline.plainPython LogPipeline.spelled with
    fromisoformat := fun text =>
      if text = Text.ofString "2026-08-07T12:00:00" then some { clock := LogPipeline.noon 7 LogPipeline.valid_seventh } else none }

/-- A time that is null, and a timestamp. -/
def twoTimes : Dict := [(Text.ofString "time", .none), (Text.ofString "timestamp", .str (Text.ofString "2026-08-07T12:00:00"))]

/-- The null comes first, so the timestamp is left out. -/
theorem null_time_wins : ¬ FollowsPreference isoPython (LogPipeline.noon 7 LogPipeline.valid_seventh) twoTimes := by
  intro h
  obtain ⟨out, hout, hnone⟩ : ∃ out, mapRecord isoPython (LogPipeline.noon 7 LogPipeline.valid_seventh) twoTimes = .ok out ∧
      out.timestamp.isSome = false := ⟨_, by with_unfolding_all rfl, by with_unfolding_all rfl⟩
  have hsome := (h.2 out hout).2 ⟨(Text.ofString "timestamp", .str (Text.ofString "2026-08-07T12:00:00")),
    List.mem_cons_of_mem _ List.mem_cons_self, by with_unfolding_all rfl, _, by with_unfolding_all rfl⟩
  rw [hnone] at hsome
  cases hsome

end LogAnalytics
