import LogAnalytics.Hashing
import LogAnalytics.Parsers.Access
import LogAnalytics.Pipeline.Determinism
import LogAnalytics.SeenKeys
/-!
# What an event id tells apart

The id of an event is a hash of some of its fields. Two lines of one source that a parser reads
the same time and the same identifying text from get the same id, whatever else they differ in,
and the deduplicator drops the second of them.
-/
open LogAnalytics.Lib LogAnalytics.Hashing

namespace LogAnalytics

/-! ## The text of an id -/

/-- What an id is made of behind its timestamp and its source. -/
def EventBody.identifying (b : EventBody) : Text :=
  [unitSeparator].intercalate [canonical b.service, Text.ofString b.level.toStr,
    if b.message = [] then b.rawMessage else b.message, canonical b.requestId]

theorem Clock.separator_not_mem (ts : Clock) : unitSeparator ∉ ts.chars.map Timeutil.char := by
  rw [unitSeparator, List.mem_map_of_injective Timeutil.char_injective]
  have hdigits : ∀ width n, '\x1f' ∉ zeroPad width n := fun width n h => absurd (zeroPad_isDigit _ h) (by decide)
  simp only [chars, List.append_assoc, List.cons_append, List.mem_append, List.mem_cons, hdigits, false_or]
  split <;> simp [hdigits]

/-- Of one source, without collisions of the hash, an id is its time and its identifying text. -/
theorem computeEventId_eq_iff {py : Python} (hhash : Function.Injective py.blake2b) {ts ts' : Clock} {b b' : EventBody}
    (hsource : b.source = b'.source) :
    computeEventId py ts b = computeEventId py ts' b' ↔ ts = ts' ∧ b.identifying = b'.identifying := by
  have hid : ∀ (ts : Clock) (b : EventBody), computeEventId py ts b =
      py.blake2b (ts.chars.map Timeutil.char ++ unitSeparator :: (b.source ++ unitSeparator :: b.identifying)) := by
    intro ts b
    simp [computeEventId, eventIdFor, EventBody.identifying, unitSeparator, List.intercalate]
  rw [hid, hid, hhash.eq_iff, hsource]
  constructor
  · intro h
    obtain ⟨htime, hrest⟩ | ⟨t, ht, -⟩ | ⟨t, ht, -⟩ := append_separator h
    · exact ⟨Clock.chars_injective (List.map_injective_iff.2 Timeutil.char_injective htime),
        (List.cons.inj (List.append_cancel_left hrest)).2⟩
    · exact absurd (by rw [ht]; simp) ts'.separator_not_mem
    · exact absurd (by rw [ht]; simp) ts.separator_not_mem
  · rintro ⟨rfl, hb⟩
    rw [hb]

/-! ## Lines of one source -/

/-- A line and the time it is parsed at. -/
structure Arrival where
  now : Clock
  line : Text

section

variable (py : Python) (parser : Parser) (context : ParseContext)

/-- `parser.parse(line, context)` -/
def Arrival.built (a : Arrival) : Except Exn LogEvent := (parser.toLogParser py).parse a.now a.line context

/-- What the parser makes of a line it takes: the time and the other fields of the event. -/
def Arrival.Reads (a : Arrival) (ts : Clock) (body : EventBody) : Prop :=
  ∃ read parsed, (parser.extract a.line context).timestamp py a.now = .ok read ∧
    (parser.extract a.line context).outcome = .ok parsed ∧ ts = read.getD a.now ∧
      body = (finalBody parser.name read.isNone parsed context).prepare py ∧ body.wellFormed = true

/-- The events of two different lines have different ids. -/
def IdsDiffer (a b : Arrival) : Prop :=
  ∀ event event', a.built py parser context = .ok event → b.built py parser context = .ok event' → a.line ≠ b.line →
    event.eventId ≠ event'.eventId

/-- The parser reads another time or another identifying text from different lines. -/
def ReadApart (a b : Arrival) : Prop :=
  ∀ ts body ts' body', a.Reads py parser context ts body → b.Reads py parser context ts' body' → a.line ≠ b.line →
    ts ≠ ts' ∨ body.identifying ≠ body'.identifying

variable {py parser context}

theorem Arrival.built_eq_ok {a : Arrival} {event : LogEvent} : a.built py parser context = .ok event ↔
    ∃ ts body, a.Reads py parser context ts body ∧
      event = { eventId := computeEventId py ts body, timestamp := ts, ingestedAt := a.now, body := body } := by
  rw [built, Parser.toLogParser, Extraction.event_ok_iff]
  simp only [LogEvent.build_ok_iff]
  constructor
  · rintro ⟨read, parsed, htime, hparsed, hformed, rfl⟩
    exact ⟨_, _, ⟨read, parsed, htime, hparsed, rfl, rfl, hformed⟩, rfl⟩
  · rintro ⟨_, _, ⟨read, parsed, htime, hparsed, rfl, rfl, hformed⟩, rfl⟩
    exact ⟨read, parsed, htime, hparsed, hformed, rfl⟩

theorem Arrival.Reads.source {a : Arrival} {ts : Clock} {body : EventBody} (h : a.Reads py parser context ts body) :
    body.source = context.source.trim := by
  obtain ⟨read, parsed, -, -, -, rfl, -⟩ := h
  rfl

theorem Arrival.Reads.eventId_eq_iff (hhash : Function.Injective py.blake2b) {a b : Arrival} {ts ts' : Clock}
    {body body' : EventBody} (h : a.Reads py parser context ts body) (h' : b.Reads py parser context ts' body') :
    computeEventId py ts body = computeEventId py ts' body' ↔ ts = ts' ∧ body.identifying = body'.identifying :=
  computeEventId_eq_iff hhash (h.source.trans h'.source.symm)

theorem idsDiffer_iff (hhash : Function.Injective py.blake2b) (a b : Arrival) :
    IdsDiffer py parser context a b ↔ ReadApart py parser context a b := by
  constructor
  · intro h ts body ts' body' hreads hreads' hne
    have hdiffer := h _ _ (Arrival.built_eq_ok.2 ⟨ts, body, hreads, rfl⟩) (Arrival.built_eq_ok.2 ⟨ts', body', hreads', rfl⟩) hne
    rw [ne_eq, hreads.eventId_eq_iff hhash hreads', not_and_or] at hdiffer
    exact hdiffer
  · intro h event event' hbuilt hbuilt' hne
    obtain ⟨ts, body, hreads, rfl⟩ := Arrival.built_eq_ok.1 hbuilt
    obtain ⟨ts', body', hreads', rfl⟩ := Arrival.built_eq_ok.1 hbuilt'
    rw [ne_eq, hreads.eventId_eq_iff hhash hreads', not_and_or]
    exact h ts body ts' body' hreads hreads' hne

/-! ## Deduplication -/

/-- `EventIdStrategy.key` -/
def eventIdKey (event : LogEvent) : Option String := if event.eventId = "" then none else some event.eventId

/-- The events of the lines the parser takes. -/
def eventsOf (py : Python) (parser : Parser) (context : ParseContext) (lines : List Arrival) : List LogEvent :=
  lines.filterMap fun a => (a.built py parser context).toOption

/-- After these lines the event of this one is a duplicate. -/
def Dropped (py : Python) (parser : Parser) (context : ParseContext) {maxSize : Nat} (hmax : 1 ≤ maxSize)
    (before : List Arrival) (a : Arrival) : Prop :=
  ∃ event, a.built py parser context = .ok event ∧
    ((Deduplicator.afterAll eventIdKey { seen := SeenKeys.empty maxSize hmax }
      (eventsOf py parser context before)).isDuplicate eventIdKey event).1 = true

/-- A line is dropped only if it was there before. -/
def DropsRepeatsOnly (py : Python) (parser : Parser) (context : ParseContext) {maxSize : Nat} (hmax : 1 ≤ maxSize)
    (lines : List Arrival) : Prop :=
  ∀ before a after, lines = before ++ a :: after → Dropped py parser context hmax before a → ∃ b ∈ before, b.line = a.line

/-- A key that is tracked is one that came. -/
theorem mem_afterAll {key : LogEvent → Option String} {k : String} {events : List LogEvent} :
    ∀ {d : Deduplicator String}, k ∈ (d.afterAll key events).seen.keys → k ∈ d.seen.keys ∨ ∃ e ∈ events, key e = some k := by
  induction events with
  | nil => exact fun h => .inl h
  | cons event events ih =>
    intro d h
    obtain hkept | ⟨e, he, hk⟩ := ih h
    · rw [Deduplicator.isDuplicate_seen] at hkept
      cases hkey : key event with
      | none =>
        rw [hkey] at hkept
        exact .inl hkept
      | some k' =>
        rw [hkey] at hkept
        obtain hkept | rfl := SeenKeys.mem_add hkept
        · exact .inl hkept
        · exact .inr ⟨event, List.mem_cons_self, hkey⟩
    · exact .inr ⟨e, List.mem_cons_of_mem _ he, hk⟩

theorem eventIdKey_eq_some {event : LogEvent} {k : String} (h : eventIdKey event = some k) : event.eventId = k := by
  unfold eventIdKey at h
  split at h
  · cases h
  · exact Option.some.inj h

theorem eventIdKey_of_built (hdigest : ∀ text, py.blake2b text ≠ "") {a : Arrival} {event : LogEvent}
    (h : a.built py parser context = .ok event) : eventIdKey event = some event.eventId := by
  obtain ⟨ts, body, -, rfl⟩ := Arrival.built_eq_ok.1 h
  exact if_neg (hdigest _)

/-- A duplicate has the id of an event before it. -/
theorem Dropped.exists_same {maxSize : Nat} {hmax : 1 ≤ maxSize} {before : List Arrival} {a : Arrival}
    (h : Dropped py parser context hmax before a) :
    ∃ b ∈ before, ∃ event event', a.built py parser context = .ok event ∧ b.built py parser context = .ok event' ∧
      event'.eventId = event.eventId := by
  obtain ⟨event, hbuilt, hduplicate⟩ := h
  obtain ⟨k, hkey, hmem⟩ := (Deduplicator.isDuplicate_fst _ _ _).1 hduplicate
  obtain hempty | ⟨event', hevent', hkey'⟩ := mem_afterAll hmem
  · cases hempty
  · obtain ⟨b, hb, hbuilt'⟩ := List.mem_filterMap.1 hevent'
    refine ⟨b, hb, event, event', hbuilt, ?_, (eventIdKey_eq_some hkey').trans (eventIdKey_eq_some hkey).symm⟩
    cases hresult : b.built py parser context with
    | error exn => rw [hresult] at hbuilt'; cases hbuilt'
    | ok e => rw [hresult] at hbuilt'; cases hbuilt'; rfl

theorem dropsRepeatsOnly_of_readApart (hhash : Function.Injective py.blake2b) {maxSize : Nat} (hmax : 1 ≤ maxSize)
    {lines : List Arrival} (h : ∀ a ∈ lines, ∀ b ∈ lines, ReadApart py parser context a b) :
    DropsRepeatsOnly py parser context hmax lines := by
  rintro before a after rfl hdropped
  obtain ⟨b, hb, event, event', hbuilt, hbuilt', hid⟩ := hdropped.exists_same
  refine ⟨b, hb, ?_⟩
  by_contra hne
  have hapart := h b (List.mem_append_left _ hb) a (List.mem_append_right _ List.mem_cons_self)
  exact (idsDiffer_iff hhash b a).2 hapart event' event hbuilt' hbuilt hne hid

/-- Of two lines the second is dropped exactly when the ids are the same. -/
theorem dropsRepeatsOnly_pair (hhash : Function.Injective py.blake2b) (hdigest : ∀ text, py.blake2b text ≠ "") {maxSize : Nat}
    (hmax : 1 ≤ maxSize) (a b : Arrival) :
    DropsRepeatsOnly py parser context hmax [a, b] ↔ ReadApart py parser context a b := by
  rw [← idsDiffer_iff hhash]
  constructor
  · intro h event event' hbuilt hbuilt' hne hid
    -- The second of two events of one id is dropped, which only a repeated line may be.
    have hkey : eventIdKey event = some event'.eventId := hid ▸ eventIdKey_of_built hdigest hbuilt
    have hdropped : Dropped py parser context hmax [a] b := by
      refine ⟨event', hbuilt', (Deduplicator.isDuplicate_fst _ _ _).2 ⟨_, eventIdKey_of_built hdigest hbuilt', ?_⟩⟩
      have hevents : eventsOf py parser context [a] = [event] := by simp [eventsOf, hbuilt, Except.toOption]
      rw [hevents, Deduplicator.afterAll, List.foldl_cons, List.foldl_nil, Deduplicator.isDuplicate_seen, hkey]
      exact SeenKeys.mem_add_self _ _
    obtain ⟨c, hc, hline⟩ := h [a] b [] rfl hdropped
    rw [List.mem_singleton] at hc
    exact hne (hc ▸ hline)
  · rintro h before c after heq hdropped
    obtain ⟨d, hd, event, event', hbuilt, hbuilt', hid⟩ := hdropped.exists_same
    refine ⟨d, hd, ?_⟩
    by_contra hne
    -- Only the second line has one before it.
    rcases before with _ | ⟨x, _ | ⟨y, more⟩⟩
    · cases hd
    · obtain ⟨rfl, hrest⟩ := List.cons.inj heq
      obtain ⟨rfl, -⟩ := List.cons.inj hrest
      rw [List.mem_singleton] at hd
      subst hd
      exact h event' event hbuilt' hbuilt hne hid
    · have hlen := congrArg List.length heq
      simp at hlen

end

/-! ## Access lines -/

/-- Stripping leaves the last word. -/
theorem trim_word (text : Text) {word : Text} (hne : word ≠ []) (hword : ∀ c ∈ word, Text.isWhiteSpace c = false) :
    ∃ front, Text.trim (text ++ Timeutil.char ' ' :: word) = front ++ word ∧
      (front = [] ∨ ∃ more, front = more ++ [Timeutil.char ' ']) := by
  have hspace : Text.isWhiteSpace (Timeutil.char ' ') = true := by decide
  obtain ⟨first, rest, hfirst⟩ := List.exists_cons_of_ne_nil hne
  have hleft : ∃ front, (text ++ Timeutil.char ' ' :: word).dropWhile Text.isWhiteSpace = front ++ word ∧
      (front = [] ∨ ∃ more, front = more ++ [Timeutil.char ' ']) := by
    rw [List.dropWhile_append]
    split
    · refine ⟨[], ?_, .inl rfl⟩
      rw [List.dropWhile_cons_of_pos hspace, hfirst, List.dropWhile_cons_of_neg, List.nil_append]
      simp [hword first (hfirst ▸ List.mem_cons_self)]
    · exact ⟨text.dropWhile Text.isWhiteSpace ++ [Timeutil.char ' '], by simp, .inr ⟨_, rfl⟩⟩
  obtain ⟨front, hdrop, hfront⟩ := hleft
  refine ⟨front, ?_, hfront⟩
  -- The word ends the text, and in no blank.
  have hlast := hword _ (List.getLast_mem hne)
  rw [Text.trim, hdrop, ← List.dropLast_append_getLast hne, ← List.append_assoc, List.reverse_append, List.reverse_singleton,
    List.singleton_append, List.dropWhile_cons_of_neg (by simp [hlast]), List.reverse_cons, List.reverse_reverse]

theorem last_word_inj {front front' word word' : Text} (hword : Timeutil.char ' ' ∉ word)
    (hword' : Timeutil.char ' ' ∉ word') (hfront : front = [] ∨ ∃ more, front = more ++ [Timeutil.char ' '])
    (hfront' : front' = [] ∨ ∃ more, front' = more ++ [Timeutil.char ' ']) (h : front ++ word = front' ++ word') :
    word = word' := by
  have hends : ∀ {a b t : Text}, (a = [] ∨ ∃ more, a = more ++ [Timeutil.char ' ']) → a = b ++ t →
      t = [] ∨ Timeutil.char ' ' ∈ t := by
    intro a b t ha hab
    obtain rfl | ⟨more, rfl⟩ := ha
    · exact .inl (List.append_eq_nil_iff.1 hab.symm).2
    · rcases t.eq_nil_or_concat with rfl | ⟨t', c, rfl⟩
      · exact .inl rfl
      · rw [List.concat_eq_append, ← List.append_assoc] at hab
        rw [List.singleton_inj.1 (List.append_inj' hab rfl).2]
        exact .inr (by simp)
  obtain ⟨t, ht, rfl⟩ | ⟨t, ht, rfl⟩ := List.append_eq_append_iff.1 h
  · rcases hends hfront' ht with rfl | hmem
    · rfl
    · exact absurd (List.mem_append_left _ hmem) hword
  · rcases hends hfront ht with rfl | hmem
    · rfl
    · exact absurd (List.mem_append_left _ hmem) hword'

namespace AccessLogParser

/-- The status in the message of an event. -/
def shown (status : Option Nat) : Text :=
  orDash ((status.filter (· ≠ 0)).map fun n => Text.ofString (toString n))

theorem mem_digits {n : Nat} {c : CodePoint} (h : c ∈ Text.ofString (toString n)) : 48 ≤ c.val ∧ c.val ≤ 57 := by
  rw [Nat.toString_eq_ofList_toDigits, Text.ofString, String.toList_ofList] at h
  obtain ⟨d, hd, rfl⟩ := List.mem_map.1 h
  have hdigit := Nat.isDigit_of_mem_toDigits (by decide) (by decide) hd
  rw [Char.isDigit, Bool.and_eq_true, decide_eq_true_eq, decide_eq_true_eq] at hdigit
  obtain ⟨hlow, hhigh⟩ := hdigit
  have hnat : 48 ≤ d.toNat ∧ d.toNat ≤ 57 := ⟨UInt32.le_iff_toNat_le.1 hlow, UInt32.le_iff_toNat_le.1 hhigh⟩
  have hval : (Fin.ofNat 0x110000 d.toNat).val = d.toNat := Nat.mod_eq_of_lt (by omega)
  rw [hval]
  exact hnat

theorem shown_eq (status : Option Nat) :
    shown status = Text.ofString "-" ∧ levelForStatus status = .info ∨
      ∃ n, status = some n ∧ shown status = Text.ofString (toString n) ∧ Text.ofString (toString n) ≠ [] := by
  cases status with
  | none => exact .inl ⟨rfl, rfl⟩
  | some n =>
    by_cases hn : n = 0
    · subst hn
      exact .inl ⟨rfl, rfl⟩
    · have hne : Text.ofString (toString n) ≠ [] := by
        rw [Nat.toString_eq_ofList_toDigits, Text.ofString, String.toList_ofList]
        simp
      refine .inr ⟨n, rfl, ?_, hne⟩
      rw [shown, Option.filter_some, if_pos (by simpa using hn), Option.map_some, orDash, Option.filter_some,
        if_pos (by simpa using hne), Option.getD_some]

/-- It is a word of digits or a dash. -/
theorem shown_word (status : Option Nat) :
    shown status ≠ [] ∧ ∀ c ∈ shown status, Text.isWhiteSpace c = false := by
  obtain ⟨h, -⟩ | ⟨n, -, h, hne⟩ := shown_eq status
  · rw [h, show Text.ofString "-" = [Timeutil.char '-'] from rfl]
    refine ⟨List.cons_ne_nil _ _, fun c hc => ?_⟩
    rw [List.mem_singleton.1 hc]
    decide
  · rw [h]
    refine ⟨hne, fun c hc => ?_⟩
    obtain ⟨hlow, hhigh⟩ := mem_digits hc
    simp only [Text.isWhiteSpace, Text.isSpace]
    have hrange : ∀ m : Nat, m < 48 ∨ 57 < m → c.val ≠ m := fun m hm => by omega
    simp [hrange, show ¬c.val ≤ 13 by omega, show ¬c.val ≤ 32 by omega, show ¬0x2000 ≤ c.val by omega]

theorem level_of_shown {status status' : Option Nat} (h : shown status = shown status') :
    levelForStatus status = levelForStatus status' := by
  have hdash : ∀ n : Nat, Text.ofString "-" ≠ Text.ofString (toString n) := fun n heq => by
    have hmem : Timeutil.char '-' ∈ Text.ofString (toString n) := heq ▸ List.mem_cons_self
    exact absurd (mem_digits hmem) (by decide)
  obtain ⟨h1, hlevel⟩ | ⟨n, rfl, h1, -⟩ := shown_eq status <;> obtain ⟨h2, hlevel'⟩ | ⟨n', rfl, h2, -⟩ := shown_eq status'
  · rw [hlevel, hlevel']
  · exact absurd (h1.symm.trans (h.trans h2)) (hdash n')
  · exact absurd (h2.symm.trans (h.symm.trans h1)) (hdash n)
  · have hchars := h1.symm.trans (h.trans h2)
    rw [Text.ofString_nat_injective hchars]

/-- The message of an event ends in the status, which its level is of; the service is the
context's, and there is no request id. -/
theorem reads {py : Python} {patterns : AccessPatterns} {context : ParseContext} {a : Arrival} {ts : Clock} {body : EventBody}
    (h : a.Reads py (parser py patterns) context ts body) :
    ∃ status text, body.level = levelForStatus status ∧
      body.message = Text.trim (text ++ Timeutil.char ' ' :: shown status) ∧
        body.service = ((finalBody [] false { raw := [] } context).prepare py).service ∧ body.requestId = none := by
  obtain ⟨read, parsed, -, hparsed, -, rfl, -⟩ := h
  change (parse py patterns a.line context).outcome = .ok parsed at hparsed
  unfold parse at hparsed
  split at hparsed
  · cases hparsed
  · next groups _ =>
    split at hparsed
    · cases hparsed
    · next status _ =>
      obtain ⟨bytes, -, rfl⟩ := Lib.map_ok.1 hparsed
      let (method, endpoint, _) := splitRequest py groups.request
      refine ⟨status, orDash method ++ Text.ofString " " ++ orDash endpoint, ?_, ?_, ?_, ?_⟩ <;> dsimp only [finalBody, EventBody.prepare] <;> split
      -- What the tail tells goes to the duration and to the metadata.
      · rfl
      · rfl
      · rw [List.append_assoc _ (Text.ofString " ")]
        rfl
      · rw [List.append_assoc _ (Text.ofString " ")]
        rfl
      · rfl
      · rfl
      · rfl
      · rfl

/-- Two access lines that are read at one time get one id when method, path and status show the
same, whatever the client, the user, the query, the size and the rest of the lines are. -/
theorem eventId_eq_iff {py : Python} (hhash : Function.Injective py.blake2b) {patterns : AccessPatterns}
    {context : ParseContext} {a b : Arrival} {event event' : LogEvent} (h : a.built py (parser py patterns) context = .ok event)
    (h' : b.built py (parser py patterns) context = .ok event') :
    event.eventId = event'.eventId ↔ event.timestamp = event'.timestamp ∧ event.body.message = event'.body.message := by
  obtain ⟨ts, body, hreads, rfl⟩ := Arrival.built_eq_ok.1 h
  obtain ⟨ts', body', hreads', rfl⟩ := Arrival.built_eq_ok.1 h'
  rw [hreads.eventId_eq_iff hhash hreads']
  refine and_congr_right fun _ => ?_
  obtain ⟨status, text, hlevel, hmessage, hservice, hrequest⟩ := reads hreads
  obtain ⟨status', text', hlevel', hmessage', hservice', hrequest'⟩ := reads hreads'
  have hspace : ∀ {word : Text}, (∀ c ∈ word, Text.isWhiteSpace c = false) → Timeutil.char ' ' ∉ word :=
    fun hword hmem => absurd (hword _ hmem) (by decide)
  obtain ⟨hne, hword⟩ := shown_word status
  obtain ⟨hne', hword'⟩ := shown_word status'
  obtain ⟨front, htrim, hfront⟩ := trim_word text hne hword
  obtain ⟨front', htrim', hfront'⟩ := trim_word text' hne' hword'
  rw [htrim] at hmessage
  rw [htrim'] at hmessage'
  have hfilled : ∀ {b : EventBody} {x y : Text}, b.message = x ++ y → y ≠ [] →
      (if b.message = [] then b.rawMessage else b.message) = b.message := fun hb hy =>
    if_neg (by rw [hb]; simp [hy])
  unfold EventBody.identifying
  rw [hfilled hmessage hne, hfilled hmessage' hne', hservice, hservice', hrequest, hrequest']
  constructor
  · intro hids
    simp only [List.intercalate_cons_cons, List.append_assoc, List.append_cancel_left_eq, List.intercalate_singleton] at hids
    -- No level has a separator in its name, so the messages begin at the same place.
    have hlevelText : ∀ level : LogLevel, unitSeparator ∉ Text.ofString level.toStr := fun level => by
      cases level <;> decide
    obtain ⟨-, hrest⟩ | ⟨t, ht, -⟩ | ⟨t, ht, -⟩ := append_separator hids
    · exact List.append_cancel_right hrest
    · exact absurd (by rw [ht]; simp) (hlevelText body'.level)
    · exact absurd (by rw [ht]; simp) (hlevelText body.level)
  · intro hsame
    -- The last word of the message is the status, from which the level is read.
    have hlevels := level_of_shown (last_word_inj (hspace hword) (hspace hword') hfront hfront'
      (hmessage.symm.trans (hsame.trans hmessage')))
    rw [hsame, hlevel, hlevel', hlevels]

end AccessLogParser

/-- Ids of different lines of a source differ, and only repeated lines are dropped, exactly as
far as the parser reads another time or another identifying text from them. -/
theorem event_id_exact_iff {py : Python} (hhash : Function.Injective py.blake2b) (hdigest : ∀ text, py.blake2b text ≠ "")
    (parser : Parser) (context : ParseContext) {maxSize : Nat} (hmax : 1 ≤ maxSize) :
    (∀ a b, IdsDiffer py parser context a b ↔ ReadApart py parser context a b) ∧
    (∀ lines : List Arrival, (∀ a ∈ lines, ∀ b ∈ lines, ReadApart py parser context a b) →
      DropsRepeatsOnly py parser context hmax lines) ∧
    ∀ a b, DropsRepeatsOnly py parser context hmax [a, b] ↔ ReadApart py parser context a b :=
  ⟨idsDiffer_iff hhash, fun _ => dropsRepeatsOnly_of_readApart hhash hmax, dropsRepeatsOnly_pair hhash hdigest hmax⟩

/-! ## Two clients -/

/-- A digest without collisions that is not empty. -/
def marked (text : Text) : String := "x" ++ LogPipeline.unary text

theorem marked_injective : Function.Injective marked := fun _ _ h =>
  LogPipeline.unary_injective ((String.append_right_inj "x").1 h)

theorem marked_ne (text : Text) : marked text ≠ "" := by
  intro h
  have hchars := congrArg String.toList h
  simp [marked] at hchars

/-- The time of the lines below. -/
def requestTime : Text := Text.ofString "07/Aug/2026:12:00:00 +0000"

/-- It reads the time of the lines below. -/
def accessPython : Python :=
  { LogPipeline.plainPython marked with
    strptime := fun text format =>
      if text = requestTime ∧ format = "%d/%b/%Y:%H:%M:%S %z" then
        some { clock := LogPipeline.noon 7 LogPipeline.valid_seventh, offset := some 0 }
      else none
    ipAddress := some }

/-- A request of a client. -/
def clientLine (client : String) : Text :=
  Text.ofString client ++ Text.ofString " - - [" ++ requestTime ++ Text.ofString "] \"GET /a HTTP/1.1\" 200 5"

def clientPatterns : AccessPatterns where
  accessLog text := (["10.0.0.1", "10.0.0.2"].find? fun client => clientLine client = text).map fun client =>
    { ip := Text.ofString client, ident := Text.ofString "-", user := Text.ofString "-", time := requestTime
      request := Text.ofString "GET /a HTTP/1.1", status := Text.ofString "200", bytes := Text.ofString "5" }
  forwarded _ := none
  timingTail _ := []

theorem valid_eighth : Lib.Calendar.Valid 2026 8 8 := by decide

/-- The line of a client, parsed on the 8th. -/
def clientArrival (client : String) : Arrival := ⟨LogPipeline.noon 8 valid_eighth, clientLine client⟩

/-- Two requests that differ in the client. -/
theorem event_id_exact_clients :
    Function.Injective accessPython.blake2b ∧ (∀ text, accessPython.blake2b text ≠ "") ∧
    (IdsDiffer accessPython (AccessLogParser.parser accessPython clientPatterns) {} (clientArrival "10.0.0.1")
        (clientArrival "10.0.0.2") ↔
      ReadApart accessPython (AccessLogParser.parser accessPython clientPatterns) {} (clientArrival "10.0.0.1")
        (clientArrival "10.0.0.2")) :=
  have hhash : Function.Injective accessPython.blake2b := marked_injective
  ⟨hhash, marked_ne, (event_id_exact_iff hhash marked_ne (AccessLogParser.parser accessPython clientPatterns) {}
    (by decide : 1 ≤ 100)).1 _ _⟩

theorem built_client (client : String) (h : client ∈ ["10.0.0.1", "10.0.0.2"]) :
    ∃ event, (clientArrival client).built accessPython (AccessLogParser.parser accessPython clientPatterns) {} = .ok event ∧
      event.timestamp = LogPipeline.noon 7 LogPipeline.valid_seventh ∧ event.body.message = Text.ofString "GET /a 200" := by
  simp only [List.mem_cons, List.not_mem_nil, or_false] at h
  rcases h with rfl | rfl
  · exact ⟨_, by with_unfolding_all rfl, by with_unfolding_all rfl, by with_unfolding_all rfl⟩
  · exact ⟨_, by with_unfolding_all rfl, by with_unfolding_all rfl, by with_unfolding_all rfl⟩

/-- They get one id, and the second is dropped. -/
theorem clients_collide :
    clientLine "10.0.0.1" ≠ clientLine "10.0.0.2" ∧
    ¬IdsDiffer accessPython (AccessLogParser.parser accessPython clientPatterns) {} (clientArrival "10.0.0.1")
      (clientArrival "10.0.0.2") ∧
    ¬DropsRepeatsOnly accessPython (AccessLogParser.parser accessPython clientPatterns) {} (by decide : 1 ≤ 100)
      [clientArrival "10.0.0.1", clientArrival "10.0.0.2"] := by
  have hlines : clientLine "10.0.0.1" ≠ clientLine "10.0.0.2" := by decide
  have hids : ¬IdsDiffer accessPython (AccessLogParser.parser accessPython clientPatterns) {} (clientArrival "10.0.0.1")
      (clientArrival "10.0.0.2") := fun h => by
    obtain ⟨event, hbuilt, htime, hmessage⟩ := built_client "10.0.0.1" (by decide)
    obtain ⟨event', hbuilt', htime', hmessage'⟩ := built_client "10.0.0.2" (by decide)
    exact h event event' hbuilt hbuilt' hlines ((AccessLogParser.eventId_eq_iff marked_injective hbuilt hbuilt').2
      ⟨htime.trans htime'.symm, hmessage.trans hmessage'.symm⟩)
  refine ⟨hlines, hids, ?_⟩
  rwa [dropsRepeatsOnly_pair marked_injective marked_ne, ← idsDiffer_iff marked_injective]

end LogAnalytics
