import Mathlib.Data.List.DropRight
import LogAnalytics.Lib.Separated
import LogAnalytics.Transformation.Normalization
/-!
# Templating twice

`template_endpoint` goes segment by segment, and its result is split into the same segments again.
A placeholder stays; a segment that was cut can read as an identifier the second time.
-/
open LogAnalytics.Lib

namespace LogAnalytics

/-- What `str.lower` does beyond ASCII: decimal digits have no case, what is in lower case stays as
it is however it is cut, nothing disappears and no slash comes about. -/
structure LowerLaws (d : NormalizerData) : Prop where
  caseless : ∀ t, (∀ c ∈ t, c.val < 128 ∨ MaskingRules.isDigit d.tables c = true) →
    d.textCase.lower t = t.map Text.asciiLower
  settled : ∀ s t, t <+: d.textCase.lower s → d.textCase.lower t = t
  ne_nil : ∀ s, s ≠ [] → d.textCase.lower s ≠ []
  slash : ∀ s, slash ∈ d.textCase.lower s → slash ∈ s

/-! ## Segments -/

section
variable (d : NormalizerData)

def isVersionSegment (segment : Text) : Bool := fullyMatches (isVersion d) segment

/-- A placeholder takes its place. -/
def isIdentifier (segment : Text) : Bool :=
  !isVersionSegment d segment && (fullyMatches isUuid segment || fullyMatches (isNumeric d) segment ||
    fullyMatches isHexId segment || fullyMatches isEmailish segment || fullyMatches (isMixedId d) segment)

def placeholders : List Text :=
  ["\x7buuid\x7d", "\x7bid\x7d", "\x7bhash\x7d", "\x7bemail\x7d", "\x7btoken\x7d"].map Text.ofString

theorem placeholder_settled : ∀ t ∈ placeholders, isVersionSegment d t = false ∧ isIdentifier d t = false ∧ t ≠ [] ∧
    t.isAscii = true ∧ t.length ≤ 64 ∧ t.map Text.asciiLower = t ∧ slash ∉ t := by
  simp only [placeholders, List.map_cons, List.map_nil, List.forall_mem_cons, List.not_mem_nil, false_implies, implies_true,
    and_true]
  refine ⟨?_, ?_, ?_, ?_, ?_⟩ <;> exact ⟨rfl, rfl, by decide, by decide, by decide, by decide, by decide⟩

variable {d} {segment : Text}

theorem templateSegment_nil : templateSegment d [] = [] := rfl

theorem templateSegment_version (h : isVersionSegment d segment = true) : templateSegment d segment = d.textCase.lower segment := by
  have hne : segment ≠ [] := by
    rintro rfl
    cases h
  have hversion : fullyMatches (isVersion d) segment = true := h
  rw [templateSegment, if_neg hne, if_pos hversion]

theorem templateSegment_identifier (h : isIdentifier d segment = true) : templateSegment d segment ∈ placeholders := by
  have hne : segment ≠ [] := by
    rintro rfl
    cases h
  simp only [isIdentifier, Bool.and_eq_true, Bool.not_eq_true', Bool.or_eq_true] at h
  obtain ⟨hversion, hmatch⟩ := h
  have hversion' : ¬fullyMatches (isVersion d) segment = true := Bool.not_eq_true _ ▸ hversion
  rw [templateSegment, if_neg hne, if_neg hversion']
  split_ifs with huuid hnumeric hhex hemail hmixed
  case neg => exact absurd hmatch (by simp [huuid, hnumeric, hhex, hemail, hmixed])
  all_goals simp [placeholders]

/-- What is no version and no identifier is cut. -/
theorem templateSegment_other (hne : segment ≠ []) (hversion : isVersionSegment d segment = false)
    (h : isIdentifier d segment = false) : templateSegment d segment = (d.textCase.lower segment).take 64 := by
  simp only [isIdentifier, hversion, Bool.not_false, Bool.true_and, Bool.or_eq_false_iff] at h
  obtain ⟨⟨⟨⟨huuid, hnumeric⟩, hhex⟩, hemail⟩, hmixed⟩ := h
  have hversion' : ¬fullyMatches (isVersion d) segment = true := Bool.not_eq_true _ ▸ hversion
  rw [templateSegment, if_neg hne, if_neg hversion']
  simp only [huuid, hnumeric, hhex, hemail, hmixed, Bool.false_eq_true, if_false]

/-! ## A segment twice -/

theorem asciiLower_digit {c : CodePoint} (h : MaskingRules.isDigit d.tables c = true) : Text.asciiLower c = c := by
  refine if_neg fun hupper => ?_
  have hsmall : c.val < 128 := by omega
  simp only [MaskingRules.isDigit, if_pos hsmall, MaskingRules.isAsciiDigit, Bool.and_eq_true, decide_eq_true_eq] at h
  omega

/-- A version in lower case is one. -/
theorem isVersion_lower (h : isVersion d segment = true) :
    isVersion d (segment.map Text.asciiLower) = true ∧ ∀ c ∈ segment, c.val < 128 ∨ MaskingRules.isDigit d.tables c = true := by
  cases segment with
  | nil => cases h
  | cons v digits =>
    simp only [isVersion, Bool.and_eq_true, Bool.or_eq_true, List.all_eq_true] at h
    obtain ⟨⟨hv, hlen⟩, hdigits⟩ := h
    have hsame : digits.map Text.asciiLower = digits :=
      (List.map_congr_left fun c hc => asciiLower_digit (hdigits c hc)).trans (List.map_id' _)
    have hv' : v = CodePoint.ofChar 'v' ∨ v = CodePoint.ofChar 'V' := by simpa [isChar] using hv
    have hlower : isChar 'v' (Text.asciiLower v) = true ∧ v.val < 128 := by
      rcases hv' with rfl | rfl <;> decide
    rw [List.map_cons, hsame, List.forall_mem_cons]
    refine ⟨?_, .inl hlower.2, fun c hc => .inr (hdigits c hc)⟩
    simp only [isVersion, Bool.and_eq_true, Bool.or_eq_true, List.all_eq_true]
    exact ⟨⟨.inl hlower.1, hlen⟩, hdigits⟩

theorem templateSegment_placeholder {t : Text} (ht : t ∈ placeholders) : templateSegment d t = t := by
  obtain ⟨hversion, hidentifier, hne, hascii, hlen, hlower, -⟩ := placeholder_settled d t ht
  rw [templateSegment_other hne hversion hidentifier, d.textCase.lower_ascii t hascii, hlower, List.take_of_length_le hlen]

variable (hd : LowerLaws d)
include hd

theorem isVersionSegment_lower (h : isVersionSegment d segment = true) :
    isVersionSegment d (d.textCase.lower segment) = true := by
  simp only [isVersionSegment, fullyMatches, Bool.or_eq_true, Bool.and_eq_true] at h ⊢
  rcases h with h | ⟨hnewline, h⟩
  · obtain ⟨hversion, hplain⟩ := isVersion_lower h
    exact .inl (by rwa [hd.caseless _ hplain])
  · obtain ⟨hversion, hplain⟩ := isVersion_lower h
    obtain ⟨c, hc, hnewline⟩ := (Option.any_eq_true _ _).1 hnewline
    have hc' : c = CodePoint.ofChar '\n' := by simpa [isChar] using hnewline
    have hall : ∀ x ∈ segment, x.val < 128 ∨ MaskingRules.isDigit d.tables x = true := by
      rw [← List.dropLast_append_getLast? c hc]
      intro x hx
      rcases List.mem_append.1 hx with hx | hx
      · exact hplain x hx
      · rw [List.mem_singleton.1 hx, hc']
        exact .inl (by decide)
    refine .inr ⟨?_, ?_⟩
    · rw [hd.caseless _ hall, List.getLast?_map, hc, hc']
      decide
    · rwa [hd.caseless _ hall, ← List.map_dropLast]

/-- A segment is settled unless it is cut or lowered to what reads as an identifier. -/
theorem templateSegment_twice_iff :
    templateSegment d (templateSegment d segment) = templateSegment d segment ↔
      isVersionSegment d segment = true ∨ isIdentifier d segment = true ∨
        isIdentifier d ((d.textCase.lower segment).take 64) = false := by
  rcases eq_or_ne segment [] with rfl | hne
  · have hlower : d.textCase.lower [] = [] := d.textCase.lower_ascii [] rfl
    rw [hlower]
    exact iff_of_true rfl (.inr (.inr rfl))
  cases hversion : isVersionSegment d segment with
  | true =>
    rw [templateSegment_version hversion, templateSegment_version (isVersionSegment_lower hd hversion)]
    exact iff_of_true (hd.settled _ _ (List.prefix_refl _)) (.inl rfl)
  | false =>
    cases hidentifier : isIdentifier d segment with
    | true =>
      exact iff_of_true (templateSegment_placeholder (templateSegment_identifier hidentifier)) (.inr (.inl rfl))
    | false =>
      rw [templateSegment_other hne hversion hidentifier]
      have hsettled : d.textCase.lower ((d.textCase.lower segment).take 64) = (d.textCase.lower segment).take 64 :=
        hd.settled segment _ (List.take_prefix _ _)
      have hne' : (d.textCase.lower segment).take 64 ≠ [] := by
        simpa using hd.ne_nil segment hne
      have hlen : ((d.textCase.lower segment).take 64).length ≤ 64 := List.length_take_le _ _
      generalize (d.textCase.lower segment).take 64 = t at hsettled hne' hlen
      cases hagain : isIdentifier d t with
      | true =>
        refine iff_of_false (fun hsame => ?_) (by simp)
        have hplaceholder := templateSegment_identifier hagain
        rw [hsame] at hplaceholder
        have hnot := (placeholder_settled d t hplaceholder).2.1
        rw [hagain] at hnot
        cases hnot
      | false =>
        refine iff_of_true ?_ (.inr (.inr rfl))
        cases hversion' : isVersionSegment d t with
        | true => rw [templateSegment_version hversion', hsettled]
        | false => rw [templateSegment_other hne' hversion' hagain, hsettled, List.take_of_length_le hlen]

/-- What a segment becomes is a segment, and empty only if it was. -/
theorem templateSegment_segment (hslash : slash ∉ segment) :
    slash ∉ templateSegment d segment ∧ (templateSegment d segment = [] ↔ segment = []) := by
  rcases eq_or_ne segment [] with rfl | hne
  · exact ⟨hslash, Iff.rfl⟩
  cases hversion : isVersionSegment d segment with
  | true =>
    rw [templateSegment_version hversion]
    exact ⟨fun h => hslash (hd.slash _ h), iff_of_false (hd.ne_nil _ hne) hne⟩
  | false =>
    cases hidentifier : isIdentifier d segment with
    | true =>
      obtain ⟨-, -, hne', -, -, -, hslash'⟩ := placeholder_settled d _ (templateSegment_identifier hidentifier)
      exact ⟨hslash', iff_of_false hne' hne⟩
    | false =>
      rw [templateSegment_other hne hversion hidentifier]
      exact ⟨fun h => hslash (hd.slash _ (List.mem_of_mem_take h)), iff_of_false (by simpa using hd.ne_nil segment hne) hne⟩

end

/-! ## Paths -/

/-- What stands behind the first slash, or all if there is none in front. -/
def relative (path : Text) : Text := if path.head? = some slash then path.tail else path

/-- The segments that are kept, but for the empty one in front. -/
def pathSegments (maxSegments : Nat) (path : Text) : List Text := ((relative path).splitOn slash).take maxSegments

/-- Segments as a path, without the empty ones at the end. -/
def render (segments : List Text) : Text := slash :: [slash].intercalate (segments.rdropWhile (· = []))

theorem slash_relative {path : Text} :
    (if path.head? = some slash then path else slash :: path) = slash :: relative path := by
  unfold relative
  split
  · next h =>
    cases path with
    | nil => cases h
    | cons c path => rw [Option.some.inj h, List.tail_cons]
  · rfl

theorem intercalate_concat {segments : List Text} (hne : segments ≠ []) (segment : Text) :
    [slash].intercalate (segments ++ [segment]) = [slash].intercalate segments ++ slash :: segment := by
  induction segments with
  | nil => exact absurd rfl hne
  | cons first rest ih =>
    cases rest with
    | nil => simp
    | cons second rest =>
      rw [List.cons_append, List.cons_append, List.intercalate_cons_cons, List.intercalate_cons_cons]
      rw [List.cons_append] at ih
      rw [ih (List.cons_ne_nil _ _)]
      simp

/-- Stripped of its slashes on the right, a path is rendered without its last empty segments. -/
theorem orSlash_rstripOf {segments : List Text} (hslash : ∀ s ∈ segments, slash ∉ s) :
    orSlash (Text.rstripOf [slash] (slash :: [slash].intercalate segments)) = render segments := by
  have hrstrip : ∀ t : Text, Text.rstripOf [slash] t = t.rdropWhile (· ∈ [slash]) := fun _ => rfl
  induction segments using List.reverseRecOn with
  | nil => rfl
  | append_singleton segments segment ih =>
    have hinit := ih fun s hs => hslash s (List.mem_append_left _ hs)
    have hbody : slash :: [slash].intercalate (segments ++ [segment]) =
        (if segments = [] then [slash] else (slash :: [slash].intercalate segments) ++ [slash]) ++ segment := by
      split
      · next hempty =>
        subst hempty
        simp
      · next hne =>
        rw [intercalate_concat hne]
        simp
    rcases eq_or_ne segment [] with rfl | hne
    · have hdrop : (segments ++ [[]]).rdropWhile (fun s : Text => decide (s = [])) = segments.rdropWhile (· = []) :=
        List.rdropWhile_concat_pos _ _ _ (by simp)
      rw [render, hdrop, ← render, ← hinit, hbody, List.append_nil]
      split
      · next hempty =>
        subst hempty
        rfl
      · rw [hrstrip, List.rdropWhile_concat_pos _ _ _ (by simp), hrstrip]
    · have hkeep : (segments ++ [segment]).rdropWhile (fun s : Text => decide (s = [])) = segments ++ [segment] :=
        List.rdropWhile_concat_neg _ _ _ (by simpa using hne)
      have hlast : segment.getLast hne ∉ [slash] := fun h =>
        hslash segment (by simp) (List.mem_singleton.1 h ▸ List.getLast_mem hne)
      have hbody' : Text.rstripOf [slash] (slash :: [slash].intercalate (segments ++ [segment])) =
          slash :: [slash].intercalate (segments ++ [segment]) := by
        rw [hrstrip, List.rdropWhile_eq_self_iff]
        intro hfull
        simp only [hbody]
        rw [List.getLast_append_of_ne_nil _ hne]
        simpa using hlast
      rw [hbody', render, hkeep, orSlash, if_neg (List.cons_ne_nil _ _)]

theorem templateEndpoint_eq {d : NormalizerData} (hd : LowerLaws d) (maxSegments : Nat) {path : Text} (hne : path ≠ []) :
    templateEndpoint d maxSegments (some path) = some (render ((pathSegments maxSegments path).map (templateSegment d))) := by
  have hsplit : (slash :: relative path).splitOn slash = [] :: (relative path).splitOn slash :=
    List.splitOn_append_cons_self_of_not_mem List.not_mem_nil _
  have hslash : ∀ s ∈ (pathSegments maxSegments path).map (templateSegment d), slash ∉ s := by
    rw [List.forall_mem_map]
    exact fun s hs => (templateSegment_segment hd (notMem_of_mem_splitOn (List.mem_of_mem_take hs))).1
  have hjoin : ∀ outs : List Text, orSlash ([slash].intercalate ([] :: outs)) = slash :: [slash].intercalate outs := by
    intro outs
    cases outs with
    | nil => rfl
    | cons first rest => rfl
  rw [templateEndpoint, Option.bind_some, if_neg hne]
  dsimp only
  rw [slash_relative, hsplit, List.take_succ_cons, List.map_cons, templateSegment_nil, hjoin, ← pathSegments,
    ← orSlash_rstripOf hslash]
  generalize [slash].intercalate ((pathSegments maxSegments path).map (templateSegment d)) = rest
  split
  · rfl
  · next hkeep =>
    rcases rest.eq_nil_or_concat' with rfl | ⟨init, c, rfl⟩
    · rfl
    · have hlast : c ≠ slash := fun h => hkeep ⟨by simp, by rw [h, ← List.cons_append, List.getLast?_concat]⟩
      have hstay : Text.rstripOf [slash] (slash :: (init ++ [c])) = slash :: (init ++ [c]) :=
        List.rdropWhile_concat_neg (fun x => decide (x ∈ [slash])) (slash :: init) c (by simpa using hlast)
      rw [hstay]

/-- A rendered path has the segments it was made of, but for the empty ones at the end. -/
theorem pathSegments_render {maxSegments : Nat} {segments : List Text} (hslash : ∀ s ∈ segments, slash ∉ s)
    (hlen : segments.length ≤ maxSegments) (hne : segments.rdropWhile (· = []) ≠ []) :
    pathSegments maxSegments (render segments) = segments.rdropWhile (· = []) := by
  have hfront := List.rdropWhile_prefix (fun s : Text => decide (s = [])) segments
  have hslash' : ∀ s ∈ segments.rdropWhile (· = []), slash ∉ s := fun s hs => hslash s (hfront.subset hs)
  rw [pathSegments, relative, render, if_pos List.head?_cons, List.tail_cons, List.splitOn_intercalate _ hslash' hne,
    List.take_of_length_le (hfront.length_le.trans hlen)]

/-- A path of empty segments is the root. -/
theorem pathSegments_root (maxSegments : Nat) : ∀ s ∈ pathSegments maxSegments [slash], s = [] := by
  intro s hs
  have hroot : (relative [slash]).splitOn slash = [[]] := rfl
  rw [pathSegments, hroot] at hs
  exact List.mem_singleton.1 (List.mem_of_mem_take hs)

/-- Rendering forgets the empty segments at the end and nothing else. -/
theorem render_inj {segments segments' : List Text} (hslash : ∀ s ∈ segments, slash ∉ s) (hslash' : ∀ s ∈ segments', slash ∉ s)
    (hne : segments.rdropWhile (· = []) ≠ []) (hne' : segments'.rdropWhile (· = []) ≠ [])
    (h : render segments = render segments') : segments.rdropWhile (· = []) = segments'.rdropWhile (· = []) := by
  have hpath := congrArg (pathSegments (max segments.length segments'.length)) h
  rwa [pathSegments_render hslash (le_max_left _ _) hne, pathSegments_render hslash' (le_max_right _ _) hne'] at hpath

/-- A segment that is left in front of the empty ones at the end, or empty. -/
theorem mem_rdropWhile {segments : List Text} {s : Text} (h : s ∈ segments) : s ∈ segments.rdropWhile (· = []) ∨ s = [] := by
  rw [← List.rdropWhile_append_rtakeWhile (p := fun s : Text => decide (s = [])) (l := segments)] at h
  rcases List.mem_append.1 h with h | h
  · exact .inl h
  · have hempty := List.mem_rtakeWhile_imp h
    exact .inr (of_decide_eq_true hempty)

variable {d : NormalizerData} (hd : LowerLaws d)
include hd

/-- No empty segment comes to stand at the end. -/
theorem rdropWhile_map {segments : List Text} (hslash : ∀ s ∈ segments, slash ∉ s) :
    ((segments.rdropWhile (· = [])).map (templateSegment d)).rdropWhile (· = []) =
      (segments.rdropWhile (· = [])).map (templateSegment d) := by
  rw [List.rdropWhile_eq_self_iff]
  intro hne
  have hne' : segments.rdropWhile (· = []) ≠ [] := fun h => hne (by rw [h, List.map_nil])
  have hlast := List.rdropWhile_last_not (fun s : Text => decide (s = [])) segments hne'
  have hmem := hslash _ ((List.rdropWhile_prefix _ _).subset (List.getLast_mem hne'))
  rw [List.getLast_map]
  simpa [(templateSegment_segment hd hmem).2] using hlast

/-- Templating twice is templating once exactly when no segment, lowered and cut, reads as an
identifier that it did not read as before. -/
theorem templateEndpoint_idempotent_iff (maxSegments : Nat) (path : Text) :
    templateEndpoint d maxSegments (templateEndpoint d maxSegments (some path)) = templateEndpoint d maxSegments (some path) ↔
      ∀ segment ∈ pathSegments maxSegments path, isVersionSegment d segment = true ∨ isIdentifier d segment = true ∨
        isIdentifier d ((d.textCase.lower segment).take 64) = false := by
  have hsegments : (∀ segment ∈ pathSegments maxSegments path, isVersionSegment d segment = true ∨ isIdentifier d segment = true ∨
      isIdentifier d ((d.textCase.lower segment).take 64) = false) ↔
      ∀ out ∈ (pathSegments maxSegments path).map (templateSegment d), templateSegment d out = out := by
    rw [List.forall_mem_map]
    exact forall₂_congr fun segment _ => (templateSegment_twice_iff hd).symm
  rw [hsegments]
  rcases eq_or_ne path [] with rfl | hpath
  · have hempty : ∀ out ∈ (pathSegments maxSegments []).map (templateSegment d), out = [] := by
      rw [List.forall_mem_map]
      intro s hs
      have hs' : s = [] := List.mem_singleton.1 (List.mem_of_mem_take hs)
      rw [hs', templateSegment_nil]
    exact iff_of_true rfl fun out hout => by rw [hempty out hout, templateSegment_nil]
  have hslash : ∀ out ∈ (pathSegments maxSegments path).map (templateSegment d), slash ∉ out := by
    rw [List.forall_mem_map]
    exact fun s hs => (templateSegment_segment hd (notMem_of_mem_splitOn (List.mem_of_mem_take hs))).1
  have hlen : ((pathSegments maxSegments path).map (templateSegment d)).length ≤ maxSegments := by
    rw [List.length_map]
    exact List.length_take_le _ _
  rw [templateEndpoint_eq hd maxSegments hpath]
  generalize (pathSegments maxSegments path).map (templateSegment d) = outs at hslash hlen
  have hagain : render outs ≠ [] := List.cons_ne_nil _ _
  rw [templateEndpoint_eq hd maxSegments hagain, Option.some.injEq]
  rcases eq_or_ne (outs.rdropWhile (· = [])) [] with hroot | hne
  · -- All that is left is the root.
    have hrender : render outs = [slash] := by rw [render, hroot]; rfl
    have hempty : ∀ out ∈ outs, out = [] := fun out hout => (mem_rdropWhile hout).resolve_left (by simp [hroot])
    have hnone : ((pathSegments maxSegments [slash]).map (templateSegment d)).rdropWhile (· = []) = [] := by
      rw [List.rdropWhile_eq_nil_iff]
      intro s hs
      obtain ⟨t, ht, rfl⟩ := List.mem_map.1 hs
      rw [pathSegments_root maxSegments t ht]
      rfl
    refine iff_of_true ?_ fun out hout => by rw [hempty out hout, templateSegment_nil]
    rw [hrender, render, hnone]
    rfl
  · rw [pathSegments_render hslash hlen hne]
    have hslash' : ∀ s ∈ outs.rdropWhile (· = []), slash ∉ s := fun s hs => hslash s ((List.rdropWhile_prefix _ _).subset hs)
    have hslash'' : ∀ s ∈ (outs.rdropWhile (· = [])).map (templateSegment d), slash ∉ s := by
      rw [List.forall_mem_map]
      exact fun s hs => (templateSegment_segment hd (hslash' s hs)).1
    have hkept := rdropWhile_map hd hslash
    constructor
    · intro h out hout
      have hmap := render_inj hslash'' hslash (by rw [hkept]; simpa using hne) hne h
      rw [hkept] at hmap
      rcases mem_rdropWhile hout with hleft | rfl
      · exact List.map_inj_left.1 (hmap.trans (List.map_id _).symm) out hleft
      · exact templateSegment_nil
    · intro h
      have hmap : (outs.rdropWhile (· = [])).map (templateSegment d) = outs.rdropWhile (· = []) :=
        (List.map_congr_left fun s hs => h s ((List.rdropWhile_prefix _ _).subset hs)).trans (List.map_id' _)
      rw [hmap, render, List.rdropWhile_idempotent, ← render]

omit hd

/-- The ASCII rules, and no digits but the ASCII ones. -/
def asciiNormalizer : NormalizerData where
  tables := ⟨fun _ => false, fun _ => false⟩
  textCase := asciiCase
  ipAddress _ := none

theorem asciiLower_val (c : CodePoint) :
    (Text.asciiLower c).val = if 65 ≤ c.val ∧ c.val ≤ 90 then c.val + 32 else c.val := by
  unfold Text.asciiLower
  split
  · have h32 : (32 : CodePoint).val = 32 := rfl
    rw [Fin.val_add, h32]
    omega
  · rfl

theorem asciiNormalizer_lowerLaws : LowerLaws asciiNormalizer := by
  have hagain : ∀ c, Text.asciiLower (Text.asciiLower c) = Text.asciiLower c := by
    intro c
    refine if_neg fun h => ?_
    rw [asciiLower_val] at h
    split at h <;> omega
  refine ⟨fun _ _ => rfl, fun s t h => ?_, fun s h => by simpa [asciiNormalizer, asciiCase] using h, fun s h => ?_⟩
  · have hfixed : ∀ c ∈ t, Text.asciiLower c = id c := by
      intro c hc
      obtain ⟨x, -, rfl⟩ := List.mem_map.1 (h.subset hc)
      exact hagain x
    exact (List.map_congr_left hfixed).trans (List.map_id t)
  · obtain ⟨c, hc, hlower⟩ := List.mem_map.1 h
    have hval := asciiLower_val c
    have hslash : slash.val = 47 := rfl
    rw [hlower, hslash] at hval
    have hsame : c = slash := Fin.ext (by split at hval <;> omega)
    rwa [← hsame]

theorem templateEndpoint_idempotent_iff_user :
    templateEndpoint asciiNormalizer 24 (templateEndpoint asciiNormalizer 24 (some (Text.ofString "/API/users/42"))) =
        templateEndpoint asciiNormalizer 24 (some (Text.ofString "/API/users/42")) ↔
      ∀ segment ∈ pathSegments 24 (Text.ofString "/API/users/42"), isVersionSegment asciiNormalizer segment = true ∨
        isIdentifier asciiNormalizer segment = true ∨
        isIdentifier asciiNormalizer ((asciiNormalizer.textCase.lower segment).take 64) = false :=
  templateEndpoint_idempotent_iff asciiNormalizer_lowerLaws 24 _

/-- Sixty-five hexadecimal digits are no identifier; the sixty-four that are kept are one. -/
theorem long_digest_retemplated :
    templateEndpoint asciiNormalizer maxPathSegments (templateEndpoint asciiNormalizer maxPathSegments
        (some (slash :: List.replicate 65 (CodePoint.ofChar 'a')))) ≠
      templateEndpoint asciiNormalizer maxPathSegments (some (slash :: List.replicate 65 (CodePoint.ofChar 'a'))) := by
  decide +kernel

end LogAnalytics
