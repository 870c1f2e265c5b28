import LogAnalytics.Lib.Replace
import LogAnalytics.Lib.Utf8
import LogAnalytics.Models.LogEvent
/-!
# Cleaning

`clean_text`, `fix_mojibake` and `RecordCleaner.clean`. A message is cleaned of line breaks and
control characters first and re-decoded afterwards, so a line separator can come back: its three
bytes, read as Latin-1, are characters that the cleaner keeps.
-/
open LogAnalytics.Lib

namespace LogAnalytics

/-! ## The characters -/

/-- `_CONTROL_CHARS` -/
def isControlChar (c : CodePoint) : Bool :=
  let n := c.val
  n ≤ 8 || n = 0x0B || n = 0x0C || (0x0E ≤ n && n ≤ 0x1F) || n = 0x7F

/-- `_NEWLINES` -/
def isNewline (c : CodePoint) : Bool :=
  let n := c.val
  (0x0A ≤ n && n ≤ 0x0D) || n = 0x85 || n = 0x2028 || n = 0x2029

/-- `_WHITESPACE_RUN` -/
def isBlank (c : CodePoint) : Bool :=
  let n := c.val
  n = 0x20 || n = 0x09 || n = 0xA0 || n = 0x1680 || (0x2000 ≤ n && n ≤ 0x200B) || n = 0x202F || n = 0x205F ||
    n = 0x3000 || n = 0xFEFF

/-- The ASCII control characters, the escape character among them, and the line separators. -/
def isForging (c : CodePoint) : Bool := c.val < 0x20 || c.val = 0x7F || isNewline c

/-- What cleaning asks of the Unicode database. -/
structure UnicodeData where
  /-- `str.isprintable` of a character. -/
  isPrintable : CodePoint → Bool
  /-- `unicodedata.normalize("NFC", ·)` -/
  nfc : Text → Text
  textCase : TextCase
  /-- Control characters and separators are not printable. -/
  isPrintable_forging : ∀ c, isForging c = true → isPrintable c = false
  /-- Composition makes no control characters and no separators. -/
  nfc_forging : ∀ text, ∀ c ∈ nfc text, isForging c = true → c ∈ text

/-! ## Texts -/

/-- `EMPTY_MARKERS` -/
def emptyMarkers : List Text :=
  ["-", "--", "n/a", "na", "none", "null", "nil", "undefined", "unknown", "?", "(null)", ""].map Text.ofString

def escape : CodePoint := 0x1B

/-- `_ANSI_ESCAPE` -/
def ansiEscape : Regex CodePoint := .all [
  .chars (· = escape), .chars (· = CodePoint.ofChar '['),
  .rep false 0 32 (.chars fun c => (0x30 ≤ c.val && c.val ≤ 0x39) || c = CodePoint.ofChar ';' || c = CodePoint.ofChar '?'),
  .rep false 0 8 (.chars fun c => 0x20 ≤ c.val && c.val ≤ 0x2F),
  .chars fun c => 0x40 ≤ c.val && c.val ≤ 0x7E]

def space : Text := [CodePoint.ofChar ' ']

/-- Without escape sequences, line breaks and control characters, if it has something to remove. -/
def stripControls (u : UnicodeData) (collapseNewlines : Bool) (text : Text) : Text :=
  if text.all u.isPrintable then text
  else
    -- Escape sequences go before the control character they begin with.
    let text := if escape ∈ text then ansiEscape.sub (fun _ => false) (fun _ => []) text else text
    let text := if collapseNewlines then replaceRuns isNewline space false text else text
    text.filter (!isControlChar ·)

/-- With single spaces. -/
def foldSpaces (u : UnicodeData) (text : Text) : Text :=
  if text.isAscii then
    if space ++ space <:+: text ∨ CodePoint.ofChar '\t' ∈ text then replaceRuns isBlank space false text else text
  else replaceRuns isBlank space false (u.nfc text)

def cleanText (u : UnicodeData) (maxLength : Option Nat) (collapseNewlines : Bool) : Option Text → Option Text
  | none => none
  | some value =>
    let text := (foldSpaces u (stripControls u collapseNewlines value)).strip
    -- The markers are compared before the text is cut.
    if u.textCase.lower text ∈ emptyMarkers then none
    else some (maxLength.elim text text.take)

/-! ## Double decoding -/

/-- The sequences that tell of UTF-8 read as Latin-1. -/
def mojibakeMarkers : List Text := [[0xC3], [0xE2, 0x20AC], [0xC2], [0xFFFD]]

/-- `text.encode("latin-1", "strict")` -/
def latin1 (text : Text) : Option (List UInt8) :=
  if text.all (·.val < 256) then some (text.map fun c => UInt8.ofNat c.val) else none

/-- The text decoded once more, if it looks and is double-decoded. -/
def repaired (text : Text) : Option Text :=
  if mojibakeMarkers.any (· <:+: text) then
    ((latin1 text).bind Utf8.decode).map fun chars => chars.map CodePoint.ofChar
  else none

def fixMojibake (text : Text) : Text := (repaired text).getD text

/-! ## The cleaner -/

structure RecordCleaner where
  maxMessageLength : Nat := 32768
  repairEncoding : Bool := true
  stripQueryStrings : Bool := true

namespace RecordCleaner

variable (u : UnicodeData) (r : RecordCleaner)

/-- The message; one that means "absent" becomes empty. -/
def cleanMessage (message : Text) : Text :=
  let cleaned := cleanText u (some r.maxMessageLength) true (some message)
  (cleaned.map fun text => if r.repairEncoding ∧ text ≠ [] then fixMojibake text else text).getD []

/-- The path, without query and fragment. -/
def cleanEndpoint (endpoint : Option Text) : Option Text :=
  (cleanText u (some 2048) true endpoint).map fun path =>
    if path ≠ [] ∧ r.stripQueryStrings then
      let path := (path.takeWhile (· ≠ CodePoint.ofChar '?')).takeWhile (· ≠ CodePoint.ofChar '#')
      if path = [] then [CodePoint.ofChar '/'] else path
    else path

/-- A metadata value; only texts are cleaned. -/
def cleanValue : Value → Value
  | .str text => (cleanText u (some 4096) true (some text)).elim .none .str
  | value => value

def clean (event : LogEvent) : LogEvent :=
  let b := event.body
  { event with
    body := { b with
      message := cleanMessage u r b.message
      service := cleanText u (some 255) true b.service
      hostname := cleanText u (some 255) true b.hostname
      logger := cleanText u (some 255) true b.logger
      userId := cleanText u (some 255) true b.userId
      requestId := cleanText u (some 255) true b.requestId
      userAgent := cleanText u (some 1024) true b.userAgent
      referrer := cleanText u (some 2048) true b.referrer
      endpoint := cleanEndpoint u r b.endpoint
      metadata := b.metadata.map fun item => (item.1, cleanValue u item.2) } }

end RecordCleaner

/-! ## What cleaning leaves -/

theorem not_isForging_space : ∀ c ∈ space, isForging c = false := by
  have hval : (CodePoint.ofChar ' ').val = 0x20 := rfl
  simp [space, isForging, isNewline, hval]

/-- Of the characters in question only the tab outlives the first step. -/
theorem forging_stripControls (u : UnicodeData) (text : Text) {c : CodePoint} (hc : c ∈ stripControls u true text)
    (hforging : isForging c = true) : c.val = 9 := by
  unfold stripControls at hc
  split at hc
  · next hall =>
    have hprintable := List.all_eq_true.1 hall c hc
    rw [u.isPrintable_forging c hforging] at hprintable
    cases hprintable
  · obtain ⟨hc, hcontrol⟩ := List.mem_filter.1 hc
    obtain hspace | ⟨-, hnewline⟩ := mem_replaceRuns hc
    · rw [not_isForging_space c hspace] at hforging
      cases hforging
    · simp only [isForging, isControlChar, hnewline, Bool.or_false, Bool.not_eq_true', Bool.or_eq_true,
        decide_eq_true_eq, Bool.or_eq_false_iff, decide_eq_false_iff_not, Bool.and_eq_false_iff] at hforging hcontrol
      simp only [isNewline, Bool.or_eq_false_iff, decide_eq_false_iff_not, Bool.and_eq_false_iff] at hnewline
      omega

theorem isBlank_tab {c : CodePoint} (h : c.val = 9) : isBlank c = true := by simp [isBlank, h]

/-- The second step takes the tabs, and composition brings nothing back. -/
theorem forging_foldSpaces (u : UnicodeData) {text : Text} (htext : ∀ c ∈ text, isForging c = true → c.val = 9)
    {c : CodePoint} (hc : c ∈ foldSpaces u text) : isForging c = false := by
  have hblank : ∀ source : Text, (∀ d ∈ source, isForging d = true → d ∈ text) →
      c ∈ replaceRuns isBlank space false source → isForging c = false := fun source hsource hc => by
    obtain hspace | ⟨hc, hblank⟩ := mem_replaceRuns hc
    · exact not_isForging_space c hspace
    · rw [← Bool.not_eq_true]
      intro hforging
      rw [isBlank_tab (htext c (hsource c hc hforging) hforging)] at hblank
      cases hblank
  unfold foldSpaces at hc
  split at hc
  · split at hc
    · exact hblank text (fun _ hd _ => hd) hc
    · next hnone =>
      rw [← Bool.not_eq_true]
      intro hforging
      have htab : c = CodePoint.ofChar '\t' := Fin.ext (htext c hc hforging)
      exact hnone (.inr (htab ▸ hc))
  · exact hblank _ (u.nfc_forging text) hc

/-- A cleaned text has no control characters, no line breaks and at most the length given. -/
theorem cleanText_spec {u : UnicodeData} {n : Nat} {value : Option Text} {text : Text}
    (h : cleanText u (some n) true value = some text) : (∀ c ∈ text, isForging c = false) ∧ text.length ≤ n := by
  cases value with
  | none => cases h
  | some value =>
    unfold cleanText at h
    dsimp only at h
    split at h
    · cases h
    · cases h
      refine ⟨fun c hc => ?_, List.length_take_le n _⟩
      exact forging_foldSpaces u (fun d => forging_stripControls u value) (Text.mem_strip (List.mem_of_mem_take hc))

/-! ## What decoding brings back -/

/-- A byte as the character Latin-1 reads it as. -/
def ofByte (b : UInt8) : CodePoint := Fin.ofNat 0x110000 b.toNat

theorem ofByte_injective : Function.Injective ofByte := fun a b h => by
  have ha := a.toNat_lt
  have hb := b.toNat_lt
  have hval := congrArg Fin.val h
  simp only [ofByte, Fin.ofNat] at hval
  exact UInt8.toNat_inj.1 (by omega)

theorem latin1_eq_some {text : Text} {bytes : List UInt8} (h : latin1 text = some bytes) : text = bytes.map ofByte := by
  unfold latin1 at h
  split at h
  · next hall =>
    cases h
    rw [List.map_map]
    refine (List.map_id text).symm.trans (List.map_congr_left fun c hc => ?_)
    have hlt := of_decide_eq_true (List.all_eq_true.1 hall c hc)
    refine Fin.ext ?_
    simp only [id_eq, Function.comp_apply, ofByte, Fin.ofNat, UInt8.toNat_ofNat']
    omega
  · cases h

/-- The bytes of a character, read as Latin-1. -/
def doubled (c : Char) : Text := (String.utf8EncodeChar c).map ofByte

theorem val_ofChar (c : Char) : (CodePoint.ofChar c).val = c.toNat := by
  have hvalid : c.toNat < 0xD800 ∨ 0xDFFF < c.toNat ∧ c.toNat < 0x110000 := c.valid
  exact Nat.mod_eq_of_lt (by omega)

theorem doubled_ascii {c : Char} (h : c.toNat < 128) : doubled c = [CodePoint.ofChar c] := by
  have hencode : String.utf8EncodeChar c = [UInt8.ofNat c.toNat] := if_pos (Nat.le_of_lt_succ h)
  rw [doubled, hencode, List.map_singleton]
  refine congrArg (fun d => [d]) (Fin.ext ?_)
  rw [val_ofChar, ofByte, UInt8.toNat_ofNat']
  exact (Nat.mod_eq_of_lt (by omega)).trans (Nat.mod_eq_of_lt (by omega))

theorem exists_chars {text out : Text} (h : repaired text = some out) : ∃ chars, out = List.map CodePoint.ofChar chars := by
  unfold repaired at h
  split at h
  · obtain ⟨chars, -, rfl⟩ := Option.map_eq_some_iff.1 h
    exact ⟨chars, rfl⟩
  · cases h

/-- Decoding yields the characters whose bytes the text has. -/
theorem mem_repaired {text out : Text} (h : repaired text = some out) (c : Char) :
    CodePoint.ofChar c ∈ out ↔ doubled c <:+: text := by
  unfold repaired at h
  split at h
  · obtain ⟨chars, hchars, rfl⟩ := Option.map_eq_some_iff.1 h
    obtain ⟨bytes, hbytes, hdecode⟩ := Option.bind_eq_some_iff.1 hchars
    rw [latin1_eq_some hbytes, List.mem_map_of_injective CodePoint.ofChar_injective, Utf8.mem_decode hdecode, doubled]
    refine ⟨fun hin => hin.map ofByte, ?_⟩
    -- Reading bytes as characters is injective, so what is around the bytes are bytes as well.
    rintro ⟨before, after, hin⟩
    obtain ⟨rest, after', hrest, hbefore, -⟩ := List.map_eq_append_iff.1 hin.symm
    obtain ⟨before', mid, hmid, -, hchar⟩ := List.map_eq_append_iff.1 hbefore
    rw [hrest, hmid, ← List.map_injective_iff.2 ofByte_injective hchar]
    exact ⟨before', after', rfl⟩
  · cases h

theorem isForging_cases {c : Char} (h : isForging (CodePoint.ofChar c) = true) :
    c.toNat < 128 ∨ c = '\u0085' ∨ c = '\u2028' ∨ c = '\u2029' := by
  have hchar : ∀ d : Char, c.toNat = d.toNat → c = d := fun d => Char.toNat_inj.1
  simp only [isForging, isNewline, val_ofChar, Bool.or_eq_true, Bool.and_eq_true, decide_eq_true_eq] at h
  rcases h with (h | h) | ((h | h) | h) | h
  · exact .inl (by omega)
  · exact .inl (by omega)
  · exact .inl (by omega)
  · exact .inr (.inl (hchar _ h))
  · exact .inr (.inr (.inl (hchar _ h)))
  · exact .inr (.inr (.inr (hchar _ h)))

/-- Of the characters in question only the two separators can come back. -/
theorem forging_repaired {text out : Text} (h : repaired text = some out) (htext : ∀ c ∈ text, isForging c = false) :
    (∀ c ∈ out, isForging c = false) ↔ ¬(doubled '\u2028' <:+: text ∨ doubled '\u2029' <:+: text) := by
  constructor
  · rintro hout (hline | hparagraph)
    · have hforging := hout _ ((mem_repaired h _).2 hline)
      cases hforging.symm.trans (by decide : isForging (CodePoint.ofChar '\u2028') = true)
    · have hforging := hout _ ((mem_repaired h _).2 hparagraph)
      cases hforging.symm.trans (by decide : isForging (CodePoint.ofChar '\u2029') = true)
  · intro hnone c hc
    rw [← Bool.not_eq_true]
    intro hforging
    obtain ⟨chars, hchars⟩ := exists_chars h
    obtain ⟨d, -, rfl⟩ := List.mem_map.1 (hchars ▸ hc)
    have hin := (mem_repaired h d).1 hc
    -- An ASCII character, and the next line, would have stood in the text itself.
    obtain hascii | rfl | rfl | rfl := isForging_cases hforging
    · rw [doubled_ascii hascii] at hin
      rw [htext _ (hin.subset List.mem_cons_self)] at hforging
      cases hforging
    · have hnext : CodePoint.ofChar '\u0085' ∈ doubled '\u0085' := by decide
      rw [htext _ (hin.subset hnext)] at hforging
      cases hforging
    · exact hnone (.inl hin)
    · exact hnone (.inr hin)

/-! ## The message -/

namespace RecordCleaner

/-- What is left of a message before it is decoded once more. -/
def cleanedText (u : UnicodeData) (n : Nat) (message : Text) : Text := (cleanText u (some n) true (some message)).getD []

theorem fixMojibake_nil : fixMojibake [] = [] := rfl

theorem cleanMessage_eq (u : UnicodeData) (r : RecordCleaner) (hrepair : r.repairEncoding = true) (message : Text) :
    cleanMessage u r message = fixMojibake (cleanedText u r.maxMessageLength message) := by
  unfold cleanMessage cleanedText
  cases cleanText u (some r.maxMessageLength) true (some message) with
  | none => exact fixMojibake_nil.symm
  | some text =>
    by_cases hnil : text = []
    · simp [hnil, fixMojibake_nil]
    · simp [hnil, hrepair]

theorem cleanedText_spec (u : UnicodeData) (n : Nat) (message : Text) :
    (∀ c ∈ cleanedText u n message, isForging c = false) ∧ (cleanedText u n message).length ≤ n := by
  unfold cleanedText
  cases h : cleanText u (some n) true (some message) with
  | none => exact ⟨fun c hc => (List.not_mem_nil hc).elim, Nat.zero_le n⟩
  | some text => exact cleanText_spec h

/-- A cleaned message is safe unless it was decoded once more and one of the two separators
came back; the 8-bit introducer is kept, or decoded, like any other character. -/
theorem clean_message_safe (u : UnicodeData) (n : Nat) (event : LogEvent) :
    let text := cleanedText u n event.body.message
    let message := (clean u { maxMessageLength := n } event).body.message
    ((∀ c ∈ message, isForging c = false) ↔
      ¬((repaired text).isSome = true ∧ (doubled '\u2028' <:+: text ∨ doubled '\u2029' <:+: text))) ∧
    (CodePoint.ofChar '\u009b' ∈ message ↔
      if (repaired text).isSome then doubled '\u009b' <:+: text else CodePoint.ofChar '\u009b' ∈ text) := by
  intro text message
  have hsafe := (cleanedText_spec u n event.body.message).1
  have hmessage : message = fixMojibake text := cleanMessage_eq u { maxMessageLength := n } rfl event.body.message
  rw [hmessage, fixMojibake]
  cases h : repaired text with
  | none => exact ⟨⟨fun _ hrepaired => Bool.false_ne_true hrepaired.1, fun _ => hsafe⟩, Iff.rfl⟩
  | some out =>
    refine ⟨?_, mem_repaired h _⟩
    rw [Option.isSome_some, Option.getD_some, forging_repaired h hsafe]
    simp

/-! ## A forged line break -/

/-- The Unicode data of Latin-1. -/
def latinData : UnicodeData where
  isPrintable c := (0x20 ≤ c.val && c.val < 0x7F) || (0xA1 ≤ c.val && c.val < 0x100 && c.val ≠ 0xAD)
  nfc text := text
  textCase := asciiCase
  isPrintable_forging c h := by
    simp only [isForging, isNewline, Bool.or_eq_true, Bool.and_eq_true, decide_eq_true_eq] at h
    simp only [Bool.or_eq_false_iff, Bool.and_eq_false_iff, decide_eq_false_iff_not]
    omega
  nfc_forging _ _ hc _ := hc

/-- `é` and a line separator, in UTF-8 read as Latin-1. -/
def forgedText : Text := [0xC3, 0xA9, 0xE2, 0x80, 0xA8]

def forgedEvent : LogEvent where
  eventId := "e1"
  timestamp := Timeutil.minTimestamp
  ingestedAt := Timeutil.minTimestamp
  body := {
    message := forgedText
    source := Text.ofString "app.log"
    sourceType := .file
    environment := .unknown
    rawMessage := forgedText
    parser := Text.ofString "text" }

/-- The cleaned message ends with a line separator. -/
theorem line_separator_comes_back : (clean latinData {} forgedEvent).body.message = [0xE9, 0x2028] ∧
    isForging 0x2028 = true := by
  refine ⟨?_, by decide⟩
  have hcleaned : cleanedText latinData 32768 forgedText = forgedText := by decide
  have hdecode : Utf8.decode [0xC3, 0xA9, 0xE2, 0x80, 0xA8] = some ['é', '\u2028'] := Utf8.decode_eq_some.2 (by decide)
  have hrepaired : repaired forgedText = some [0xE9, 0x2028] := by
    have hlatin : latin1 forgedText = some [0xC3, 0xA9, 0xE2, 0x80, 0xA8] := by decide
    rw [repaired, if_pos (by decide), hlatin, Option.bind_some, hdecode]
    decide
  have hmessage := cleanMessage_eq latinData {} rfl forgedText
  rw [hcleaned, fixMojibake, hrepaired] at hmessage
  exact hmessage

end RecordCleaner

end LogAnalytics
