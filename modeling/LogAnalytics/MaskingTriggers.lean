import LogAnalytics.MaskingRules
/-!
# The pre-scan

What every match of a rule contains, and when the pre-scan of the text in lower case sees it. A
key written with one of the odd letters, or a number without an ASCII digit, is matched by
its pattern and seen by no trigger.
-/
open LogAnalytics.Lib LogAnalytics.Lib.Regex

namespace LogAnalytics.MaskingRules

/-- `str.lower` of one of the characters below. -/
def lowerChar (c : CodePoint) : CodePoint := if c = kelvinSign then char 'k' else Text.asciiLower c

/-- A character `str.lower` treats on its own: an ASCII one, or the Kelvin sign. -/
def isPlain (c : CodePoint) : Bool := c.val < 128 || c = kelvinSign

/-- `str.lower` makes of plain characters in a row their lower case, wherever they stand. -/
def LowersPlain (lower : Text → Text) : Prop :=
  ∀ before w after : Text, w.all isPlain = true → ∃ p q, lower (before ++ w ++ after) = p ++ w.map lowerChar ++ q

/-- Every rule applied, whether there is a trigger or not. -/
def slowPath (u : CharTables) (rules : List RuleName) (text : Text) : Text :=
  rules.foldl (fun text rule => apply u rule text) text

/-- The texts a rule matches. -/
def found (u : CharTables) (rule : RuleName) (text : Text) : List Text := (pattern u rule).found (isWord u) text

/-- A match with an odd letter in it, or a number without an ASCII digit. -/
def irregular : RuleName → Text → Bool
  | .authorizationHeader, x => x.any oddLetters.contains
  | .sensitiveKv, x => x.any oddLetters.contains
  | .creditCard, x => !x.any isAsciiDigit
  | .phone, x => !x.any isAsciiDigit
  | _, _ => false

/-- Plain characters that the pre-scan recognises. -/
def Trig (rule : RuleName) (w : Text) : Prop := w.all isPlain = true ∧ w.map lowerChar ∈ triggers rule

/-! ## What a match contains -/

theorem takes_exactly (u : CharTables) (s : String) : (exactly s).Takes (isWord u) fun w => w = Text.ofString s := by
  refine (takes_row _).mono fun w hw => ?_
  rw [List.forall₂_map_left_iff] at hw
  simp only [decide_eq_true_eq] at hw
  exact (List.forall₂_eq_eq_eq ▸ hw : Text.ofString s = w).symm

theorem takes_oneChar (u : CharTables) (c : Char) : (oneChar c).Takes (isWord u) fun w => w = [char c] := by
  refine (takes_chars _).mono ?_
  rintro _ ⟨d, rfl, hd⟩
  rw [decide_eq_true_eq] at hd
  rw [hd]

theorem takes_word (u : CharTables) (k : Text) :
    (word k).Takes (isWord u) fun w => List.Forall₂ (fun a c => sameLetter a c = true) k w := by
  refine (takes_row _).mono fun w hw => ?_
  rwa [List.forall₂_map_left_iff] at hw

theorem sameLetter_plain {k c : CodePoint} (hk : k.val < 128) (h : sameLetter k c = true) (hodd : c ∉ oddLetters) :
    isPlain c = true ∧ lowerChar c = k := by
  simp only [oddLetters, List.mem_cons, List.not_mem_nil, or_false, not_or] at hodd
  simp only [sameLetter, Bool.or_eq_true, Bool.and_eq_true, decide_eq_true_eq] at h
  rcases h with ((h | ⟨-, h | h⟩) | ⟨-, h⟩) | ⟨rfl, rfl⟩
  · have hc : c.val < 128 := by
      unfold Text.asciiLower at h
      split at h
      · omega
      · exact h ▸ hk
    have hkelvin : c ≠ kelvinSign := by
      rintro rfl
      exact absurd hc (by decide)
    exact ⟨by simp [isPlain, hc], by rw [lowerChar, if_neg hkelvin, h]⟩
  · exact absurd h hodd.1
  · exact absurd h hodd.2.1
  · exact absurd h hodd.2.2
  · decide

theorem word_plain {k w : Text} (hk : k.all (·.val < 128) = true)
    (h : List.Forall₂ (fun a c => sameLetter a c = true) k w) (hodd : w.any oddLetters.contains = false) :
    w.all isPlain = true ∧ w.map lowerChar = k := by
  induction h with
  | nil => exact ⟨rfl, rfl⟩
  | cons hc _ ih =>
    simp only [List.all_cons, List.any_cons, Bool.and_eq_true, Bool.or_eq_false_iff, decide_eq_true_eq] at hk hodd
    obtain ⟨hplain, hlower⟩ := sameLetter_plain hk.1 hc (by simpa using hodd.1)
    obtain ⟨hplains, hlowers⟩ := ih hk.2 hodd.2
    exact ⟨by rw [List.all_cons, hplain, hplains]; rfl, by rw [List.map_cons, hlower, hlowers]⟩

/-- Every match of a rule that is not irregular contains a trigger. -/
def ContainsTrigger (u : CharTables) (rule : RuleName) : Prop :=
  (pattern u rule).Takes (isWord u) fun x => irregular rule x = false → Has (Trig rule) x

/-- A literal part of the pattern holds the trigger. -/
theorem contains_exactly {u : CharTables} {rule : RuleName} {rs : List (Regex CodePoint)} {s : String}
    (hpattern : pattern u rule = .all rs) (hs : exactly s ∈ rs) {trigger : Text} (ht : trigger ∈ triggers rule)
    (hin : ∃ w : Text, w.all isPlain = true ∧ w.map lowerChar = trigger ∧ w <:+: Text.ofString s) :
    ContainsTrigger u rule := by
  obtain ⟨w, hplain, hlower, hinfix⟩ := hin
  unfold ContainsTrigger
  rw [hpattern]
  have hhas := Takes.all_of_mem hs (takes_exactly u s).has
  refine hhas.mono ?_
  rintro x ⟨_, rfl, hx⟩ -
  exact ⟨w, ⟨hplain, hlower ▸ ht⟩, hinfix.trans hx⟩

theorem digit_trigger {c : CodePoint} (h : isAsciiDigit c = true) :
    [c].all isPlain = true ∧ [c].map lowerChar ∈ digitTriggers.map Text.ofString := by
  simp only [isAsciiDigit, Bool.and_eq_true, decide_eq_true_eq] at h
  have hval : c.val = 48 ∨ c.val = 49 ∨ c.val = 50 ∨ c.val = 51 ∨ c.val = 52 ∨ c.val = 53 ∨ c.val = 54 ∨
      c.val = 55 ∨ c.val = 56 ∨ c.val = 57 := by
    omega
  have hc : c = char '0' ∨ c = char '1' ∨ c = char '2' ∨ c = char '3' ∨ c = char '4' ∨ c = char '5' ∨
      c = char '6' ∨ c = char '7' ∨ c = char '8' ∨ c = char '9' := by
    simp only [Fin.ext_iff]
    exact hval
  rcases hc with rfl | rfl | rfl | rfl | rfl | rfl | rfl | rfl | rfl | rfl <;> decide

/-- A number with an ASCII digit in it holds the trigger. -/
theorem contains_digit {u : CharTables} {rule : RuleName} (hrule : triggers rule = digitTriggers.map Text.ofString)
    (hirregular : ∀ x, irregular rule x = !x.any isAsciiDigit) : ContainsTrigger u rule := by
  refine (takes_any _).mono fun x _ hx => ?_
  rw [hirregular, Bool.not_eq_false', List.any_eq_true] at hx
  obtain ⟨c, hc, hdigit⟩ := hx
  obtain ⟨hplain, htrigger⟩ := digit_trigger hdigit
  obtain ⟨before, after, rfl⟩ := List.append_of_mem hc
  exact ⟨[c], ⟨hplain, hrule ▸ htrigger⟩, before, after, by simp⟩

/-- A key in any letter case holds the trigger, unless an odd letter is in it. -/
theorem contains_word {u : CharTables} {rule : RuleName} {rs : List (Regex CodePoint)} {r : Regex CodePoint}
    (ks : List Text) (hpattern : pattern u rule = .all rs) (hr : r ∈ rs)
    (hks : ∀ k ∈ ks, k.all (·.val < 128) = true ∧ k ∈ triggers rule)
    (htakes : r.Takes (isWord u) (Has fun w => ∃ k ∈ ks, List.Forall₂ (fun a c => sameLetter a c = true) k w))
    (hirregular : ∀ x, irregular rule x = x.any oddLetters.contains) : ContainsTrigger u rule := by
  unfold ContainsTrigger
  rw [hpattern]
  refine (Takes.all_of_mem hr htakes).mono ?_
  rintro x ⟨w, ⟨k, hk, hw⟩, hx⟩ hodd
  obtain ⟨hascii, htrigger⟩ := hks k hk
  rw [hirregular, List.any_eq_false] at hodd
  obtain ⟨hplain, hlower⟩ := word_plain hascii hw
    (List.any_eq_false.2 fun c hc => hodd c (hx.subset hc))
  exact ⟨w, ⟨hplain, hlower ▸ htrigger⟩, hx⟩

theorem contains_authorizationHeader (u : CharTables) : ContainsTrigger u .authorizationHeader := by
  refine contains_word [Text.ofString "authorization"] rfl (List.mem_cons_of_mem _ List.mem_cons_self) ?_ ?_
    fun _ => rfl
  · intro k hk
    rw [List.mem_singleton.1 hk]
    exact ⟨by decide, List.mem_cons_self⟩
  · refine Takes.group (Takes.all_of_mem List.mem_cons_self ?_) 1
    exact ((takes_word u _).mono fun w hw => ⟨_, List.mem_cons_self, hw⟩).has

theorem kvKey_name {k : Text} (hk : k ∈ kvKeys) : k.all (·.val < 128) = true ∧ k ∈ sensitiveFieldNames := by
  have hkeys : kvKeys.all (fun k => k.all (·.val < 128) && sensitiveFieldNames.contains k) = true := by decide
  have hkey := List.all_eq_true.1 hkeys k hk
  rw [Bool.and_eq_true, List.contains_iff_mem] at hkey
  exact hkey

theorem takes_kvKey (u : CharTables) : (Regex.group 1 (.oneOf (kvKeys.map word))).Takes (isWord u) fun w =>
    ∃ k ∈ kvKeys, List.Forall₂ (fun a c => sameLetter a c = true) k w := by
  refine Takes.group (Takes.oneOf fun r hr => ?_) 1
  obtain ⟨k, hk, rfl⟩ := List.mem_map.1 hr
  exact (takes_word u k).mono fun w hw => ⟨k, hk, hw⟩

theorem contains_sensitiveKv (u : CharTables) : ContainsTrigger u .sensitiveKv :=
  contains_word kvKeys rfl (List.mem_cons_of_mem _ List.mem_cons_self) (fun _ hk => kvKey_name hk)
    (takes_kvKey u).has fun _ => rfl

/-- One character of the pattern holds the trigger. -/
theorem contains_email (u : CharTables) : ContainsTrigger u .email := by
  have hat : oneChar '@' ∈ [Regex.boundary, .rep false 1 64 (.chars fun c => isAsciiAlnum c || among "._%+-" c),
      oneChar '@', .rep false 1 255 (.chars fun c => isAsciiAlnum c || among ".-" c), oneChar '.',
      .rep false 2 24 (.chars fun c => isAsciiUpper c || isAsciiLower c), .boundary] :=
    List.mem_cons_of_mem _ (List.mem_cons_of_mem _ List.mem_cons_self)
  refine (Takes.all_of_mem hat (takes_oneChar u '@').has).mono ?_
  rintro x ⟨_, rfl, hx⟩ -
  exact ⟨[char '@'], ⟨by decide, List.mem_cons_self⟩, hx⟩

/-! ### The keys of the vendors -/

/-- A text of a finite choice holds a trigger if each text of the choice does. -/
theorem trig_of_mem {rule : RuleName} (ws : List Text)
    (hws : ws.all (fun w => w.all isPlain && (triggers rule).contains (w.map lowerChar)) = true)
    {w : Text} (hw : w ∈ ws) : Trig rule w := by
  have h := List.all_eq_true.1 hws w hw
  rw [Bool.and_eq_true, List.contains_iff_mem] at h
  exact h

theorem takes_among (u : CharTables) (s : String) :
    (Regex.chars (among s)).Takes (isWord u) fun w => w ∈ (Text.ofString s).map fun c => [c] := by
  refine (takes_chars _).mono ?_
  rintro _ ⟨c, rfl, hc⟩
  exact List.mem_map.2 ⟨c, List.contains_iff_mem.1 hc, rfl⟩

/-- The prefixes of the vendors. -/
theorem takes_vendorPrefix (u : CharTables) {r : Regex CodePoint}
    (hr : r ∈ [Regex.all [exactly "AKIA", .rep false 16 16 (.chars fun c => isAsciiDigit c || isAsciiUpper c)],
      .all [exactly "gh", .chars (among "pousr"), oneChar '_', .rep false 20 255 (.chars isAsciiAlnum)],
      .all [exactly "xox", .chars (among "baprs"), oneChar '-',
        .rep false 10 255 (.chars fun c => isAsciiAlnum c || c = char '-')],
      .all [exactly "sk_", .oneOf [exactly "live", exactly "test"], oneChar '_', .rep false 16 255 (.chars isAsciiAlnum)],
      .all [exactly "AIza", .rep false 35 35 (.chars isBase64Url)]]) :
    r.Takes (isWord u) (Has (Trig .vendorKey)) := by
  have hexactly : ∀ {s : String} {rs : List (Regex CodePoint)}, Trig .vendorKey (Text.ofString s) →
      (Regex.all (exactly s :: rs)).Takes (isWord u) (Has (Trig .vendorKey)) := fun hs =>
    Takes.all_of_mem List.mem_cons_self ((takes_exactly u _).mono fun w hw => hw ▸ hs).has
  simp only [List.mem_cons, List.not_mem_nil, or_false] at hr
  rcases hr with rfl | rfl | rfl | rfl | rfl
  · exact hexactly ⟨by decide, by decide⟩
  · refine (takes_three (takes_exactly u "gh") (takes_among u "pousr") (takes_oneChar u '_')).mono fun x hx => hx.mono ?_
    rintro _ ⟨_, b, _, rfl, rfl, hb, rfl⟩
    obtain ⟨c, hc, rfl⟩ := List.mem_map.1 hb
    exact trig_of_mem ((Text.ofString "pousr").map fun c => Text.ofString "gh" ++ [c] ++ [char '_'])
      (by decide) (List.mem_map.2 ⟨c, hc, rfl⟩)
  · exact hexactly ⟨by decide, by decide⟩
  · have hmode : (Regex.oneOf [exactly "live", exactly "test"]).Takes (isWord u) fun w =>
        w ∈ [Text.ofString "live", Text.ofString "test"] := by
      refine Takes.oneOf fun r hr => ?_
      simp only [List.mem_cons, List.not_mem_nil, or_false] at hr
      rcases hr with rfl | rfl
      · exact (takes_exactly u "live").mono fun w hw => hw ▸ List.mem_cons_self
      · exact (takes_exactly u "test").mono fun w hw => hw ▸ List.mem_cons_of_mem _ List.mem_cons_self
    refine (takes_three (takes_exactly u "sk_") hmode (takes_oneChar u '_')).mono fun x hx => hx.mono ?_
    rintro _ ⟨_, b, _, rfl, rfl, hb, rfl⟩
    refine trig_of_mem (["sk_live_", "sk_test_"].map Text.ofString) (by decide) ?_
    simp only [List.mem_cons, List.not_mem_nil, or_false] at hb
    rcases hb with rfl | rfl <;> decide
  · exact hexactly ⟨by decide, by decide⟩

theorem contains_vendorKey (u : CharTables) : ContainsTrigger u .vendorKey := by
  have hvendor := Takes.oneOf fun r hr => takes_vendorPrefix u hr
  exact (Takes.all_of_mem (List.mem_cons_of_mem _ List.mem_cons_self) hvendor).mono fun x hx _ => hx

theorem containsTrigger (u : CharTables) (rule : RuleName) : ContainsTrigger u rule := by
  cases rule with
  | authorizationHeader => exact contains_authorizationHeader u
  | sensitiveKv => exact contains_sensitiveKv u
  | jwt =>
    exact contains_exactly rfl (List.mem_cons_of_mem _ List.mem_cons_self) List.mem_cons_self
      ⟨Text.ofString "eyJ", by decide, by decide, List.infix_refl _⟩
  | vendorKey => exact contains_vendorKey u
  | privateKeyBlock =>
    exact contains_exactly rfl List.mem_cons_self List.mem_cons_self
      ⟨Text.ofString "-----BEGIN", by decide, by decide, by decide⟩
  | creditCard => exact contains_digit rfl fun _ => rfl
  | email => exact contains_email u
  | phone => exact contains_digit rfl fun _ => rfl

/-! ## The fast path -/

/-- What the patterns take that holds a trigger, the pre-scan sees. -/
theorem mayContainSecret_of_trig {lower : Text → Text} (hlower : LowersPlain lower) {rules : List RuleName}
    {rule : RuleName} (hrule : rule ∈ rules) {x text : Text} (hx : Has (Trig rule) x) (hin : x <:+: text) :
    mayContainSecret rules (lower text) = true := by
  obtain ⟨w, ⟨hplain, htrigger⟩, hw⟩ := hx
  obtain ⟨before, after, rfl⟩ := hw.trans hin
  obtain ⟨p, q, hpq⟩ := hlower before w after hplain
  rw [mayContainSecret, List.any_eq_true]
  refine ⟨rule, hrule, List.any_eq_true.2 ⟨_, htrigger, decide_eq_true ?_⟩⟩
  exact ⟨p, q, hpq.symm⟩

/-- Where the pre-scan sees nothing, no rule matches anything regular. -/
theorem found_nil {u : CharTables} {lower : Text → Text} (hlower : LowersPlain lower) {rules : List RuleName}
    {text : Text} (hscan : mayContainSecret rules (lower text) = false) {rule : RuleName} (hrule : rule ∈ rules)
    (hregular : ∀ x ∈ found u rule text, irregular rule x = false) : found u rule text = [] := by
  rw [List.eq_nil_iff_forall_not_mem]
  intro x hx
  obtain ⟨hin, htrig⟩ := of_mem_found (containsTrigger u rule) hx
  rw [mayContainSecret_of_trig hlower hrule (htrig (hregular x hx)) hin] at hscan
  cases hscan

theorem slowPath_of_found_nil {u : CharTables} {rules : List RuleName} {text : Text}
    (h : ∀ rule ∈ rules, found u rule text = []) : slowPath u rules text = text := by
  induction rules with
  | nil => rfl
  | cons rule rules ih =>
    rw [slowPath, List.foldl_cons, apply, sub_of_found_nil _ (h rule List.mem_cons_self)]
    exact ih fun rule hrule => h rule (List.mem_cons_of_mem _ hrule)

theorem slowPath_nil (u : CharTables) (rules : List RuleName) : slowPath u rules [] = [] := by
  induction rules with
  | nil => rfl
  | cons rule rules ih => exact ih

/-- A text that fits is masked by the rules if the pre-scan sees something, and else left. -/
theorem maskText_eq (u : CharTables) (lower : Text → Text) (rules : List RuleName) {text : Text}
    (hlen : text.length ≤ maxMaskableLength) :
    (masker u lower rules).maskText text =
      if mayContainSecret rules (lower text) then slowPath u rules text else text := by
  have hfold : (rules.map (apply u)).foldl (fun text rule => rule text) text = slowPath u rules text :=
    List.foldl_map
  rw [Masker.maskText]
  by_cases hnil : text = []
  · rw [if_pos (.inr hnil), hnil, slowPath_nil, ite_self]
  · rw [if_neg (by simp [masker, hnil]), if_neg (by omega), Masker.maskShort, ← hfold]
    rfl

theorem fast_path_agrees (u : CharTables) {lower : Text → Text} (hlower : LowersPlain lower) (rules : List RuleName)
    {text : Text} (hlen : text.length ≤ maxMaskableLength) :
    ((masker u lower rules).maskText text = slowPath u rules text ∧
        ((∃ rule ∈ rules, found u rule text ≠ []) → mayContainSecret rules (lower text) = true)) ↔
      (mayContainSecret rules (lower text) = true ∨
        ∀ rule ∈ rules, ∀ x ∈ found u rule text, irregular rule x = false) := by
  rw [maskText_eq u lower rules hlen]
  cases hscan : mayContainSecret rules (lower text) with
  | true => simp
  | false =>
    simp only [Bool.false_eq_true, if_false, imp_false, false_or, not_exists, not_and, not_not]
    constructor
    · rintro ⟨-, hnone⟩ rule hrule x hx
      rw [hnone rule hrule] at hx
      cases hx
    · intro hregular
      have hnone : ∀ rule ∈ rules, found u rule text = [] := fun rule hrule =>
        found_nil hlower hscan hrule (hregular rule hrule)
      exact ⟨(slowPath_of_found_nil hnone).symm, hnone⟩

theorem lowersPlain_map : LowersPlain (List.map lowerChar) := fun before w after _ =>
  ⟨before.map lowerChar, after.map lowerChar, by rw [List.map_append, List.map_append]⟩

/-- Tables that know of no letters beyond ASCII but the odd ones. -/
def oddTables : CharTables := ⟨oddLetters.contains, fun _ => false⟩

theorem fast_path_agrees_kelvin :
    (masker oddTables (List.map lowerChar) [.sensitiveKv]).maskText (Text.ofString "to\u212aen=hunter2") =
        slowPath oddTables [.sensitiveKv] (Text.ofString "to\u212aen=hunter2") ∧
      ((∃ rule ∈ [RuleName.sensitiveKv], found oddTables rule (Text.ofString "to\u212aen=hunter2") ≠ []) →
        mayContainSecret [.sensitiveKv] (List.map lowerChar (Text.ofString "to\u212aen=hunter2")) = true) :=
  (fast_path_agrees oddTables lowersPlain_map [.sensitiveKv] (by decide)).2 (.inl (by decide))

/-- A key with `ſ` for `s` is matched, and the text is kept as it is. -/
theorem long_s_unmasked :
    (masker oddTables (List.map lowerChar) [.sensitiveKv]).maskText (Text.ofString "paſſword=hunter2") =
        Text.ofString "paſſword=hunter2" ∧
      slowPath oddTables [.sensitiveKv] (Text.ofString "paſſword=hunter2") =
        Text.ofString "paſſword=***REDACTED***" ∧
      found oddTables .sensitiveKv (Text.ofString "paſſword=hunter2") = [Text.ofString "paſſword=hunter2"] ∧
      mayContainSecret [.sensitiveKv] (List.map lowerChar (Text.ofString "paſſword=hunter2")) = false := by
  decide

end LogAnalytics.MaskingRules
