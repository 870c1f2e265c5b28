import LogAnalytics.Parsers.Verdicts
/-!
# The registered parsers

Every parser `get_parser` can return, with the verdict on a record read off the record. Of the
line parsers only the timestamp can escape; the values of structured records and of configured
patterns can too.
-/

namespace LogAnalytics

/-- What the compiled patterns of the built-in parsers find. -/
structure Patterns where
  text : TextPatterns
  syslog : Text → Option SyslogMatch
  nginxError : Text → Option NginxErrorMatch
  nginxTail : Text → List (Text × Text)
  access : AccessPatterns
  tokens : Text → List (Text × Text × Text × Text)

/-- The entries of the registry; a configured parser is one of its own. -/
inductive ParserKind where
  | access | json | csv | keyvalue | plaintext | syslog | nginxError
  | custom (spec : CustomParserSpec)

namespace ParserKind

variable (py : Python) (patterns : Patterns)

def parser : ParserKind → Parser
  | access => AccessLogParser.parser py patterns.access
  | json => JsonLineParser.parser py
  | csv => CsvRowParser.parser py
  | keyvalue => KeyValueParser.parser py patterns.tokens
  | plaintext => PlainTextParser.parser py patterns.text
  | syslog => SyslogParser.parser py patterns.text patterns.syslog
  | nginxError => NginxErrorLogParser.parser py patterns.nginxError patterns.nginxTail
  | custom spec => RegexParser.parser py spec

/-- The parse of a payload; a structured one goes to `parse_record`. -/
def extraction (kind : ParserKind) (payload : Payload Dict) (context : ParseContext) : Extraction :=
  match payload with
  | .text line => (kind.parser py patterns).extract line context
  | .mapping record => parseRecord py record context none

/-! ## The verdict on a record -/

/-- Of a group of a configured pattern. -/
def groupVerdict (spec : CustomParserSpec) (group value : Text) : Verdict :=
  let norm := normaliseKey py group
  let canonical := ((spec.fieldMap.find? (·.1 = norm)).map (·.2)).getD norm
  if group ∈ spec.metadataGroups ∨ canonical = Text.ofString "timestamp" then .fine
  else if canonical = Text.ofString "status_code" then intVerdict py (.str value)
  else if canonical ∈ ["response_time_ms", "response_time", "duration"].map Text.ofString then .fine
  else if canonical ∈ ["bytes_sent", "bytes"].map Text.ofString then intVerdict py (.str value)
  else .fine

/-- Of a row or an object found in a line. -/
def lineVerdict (kind : ParserKind) (line : Text) (context : ParseContext) : Verdict :=
  match kind with
  | access | plaintext | syslog | nginxError => .of ((kind.parser py patterns).extract line context).outcome
  | json =>
    let text := (line.strip.reverse.dropWhile (· = Timeutil.char ',')).reverse
    match if text = [] then none else (py.loads text).toOption with
    | some (.dict record) => recordVerdict py context record (some line)
    | _ => .refused
  | csv =>
    match context.header.filter (· ≠ []), (py.csvRow line).toOption with
    | some header, some row =>
      recordVerdict py context ((header.zip row).foldl (fun record x => Dict.set record x.1 (.str x.2)) []) none
    | _, _ => .refused
  | keyvalue =>
    if (patterns.tokens line).length < 2 then .refused
    else
      recordVerdict py context
        ((patterns.tokens line).foldl (fun record (key, quoted, single, bare) =>
          Dict.set record key (.str (KeyValueParser.tokenValue quoted single bare))) []) none
  | custom spec =>
    match spec.lineMatch line.rstripNewlines with
    | none => .refused
    | some groups =>
      .first ((groups.filterMap fun (group, value) => value.map (group, ·)).map fun x => groupVerdict py spec x.1 x.2)

def payloadVerdict (kind : ParserKind) (payload : Payload Dict) (context : ParseContext) : Verdict :=
  match payload with
  | .text line => kind.lineVerdict py patterns line context
  | .mapping record => recordVerdict py context record none

/-! ## What the line parsers raise -/

theorem of_intOfDigits (digits : Text) : Verdict.of (py.intOfDigits digits) ≠ .escapes := by
  unfold Python.intOfDigits
  split
  · simp
  · simp [Verdict.ofExn_valueError]

theorem of_durationText (text : Text) (fieldName : Option Text) :
    Verdict.of (coerceDurationMs py (.str text) fieldName) = .fine := by
  rw [of_coerceDurationMs]
  unfold durationVerdict
  split <;> rfl

theorem of_foldlM {α β : Type} {f : β → α → Except Exn β} (h : ∀ b a, Verdict.of (f b a) ≠ .escapes) (l : List α) :
    ∀ b, Verdict.of (l.foldlM f b) ≠ .escapes := by
  induction l with
  | nil => exact fun b => by simp
  | cons a l ih =>
    intro b
    rw [List.foldlM_cons]
    cases hstep : f b a with
    | ok b' => exact ih b'
    | error exn =>
      have hexn := h b a
      rw [hstep] at hexn
      exact hexn

/-- An inline pair is taken, or its status has a digit that is not decimal. -/
theorem of_absorbPair (fields : Fields) (pair : Text × Text) :
    Verdict.of (PlainTextParser.absorbPair py fields pair) ≠ .escapes := by
  obtain ⟨key, value⟩ := pair
  unfold PlainTextParser.absorbPair
  dsimp only
  generalize (if py.textCase.lower key = Text.ofString "trace_id" ∨ py.textCase.lower key = Text.ofString "correlation_id" then
    Text.ofString "request_id" else py.textCase.lower key) = canonical
  split
  · rw [Verdict.of_map, of_durationText]
    simp
  · split
    · split
      · rw [Verdict.of_map]
        exact of_intOfDigits py value
      · simp
    · split
      · simp
      · split <;> simp

theorem of_digits (text : Text) : Verdict.of (AccessLogParser.digits py text) ≠ .escapes := by
  unfold AccessLogParser.digits
  split
  · rw [Verdict.of_map]
    exact of_intOfDigits py text
  · simp

theorem of_priorityLevel (pri : Option Text) : Verdict.of (SyslogParser.priorityLevel py pri) ≠ .escapes := by
  unfold SyslogParser.priorityLevel
  split
  · simp
  · simp
  · rw [Verdict.of_map]
    exact of_intOfDigits py _

/-- What a line parser refuses it refuses with a `ParseError` or a `ValueError`. -/
theorem lineVerdict_ne_escapes {kind : ParserKind} (hkind : kind = access ∨ kind = plaintext ∨ kind = syslog ∨ kind = nginxError)
    (line : Text) (context : ParseContext) : kind.lineVerdict py patterns line context ≠ .escapes := by
  rcases hkind with rfl | rfl | rfl | rfl
  · simp only [lineVerdict, parser, AccessLogParser.parser, AccessLogParser.parse]
    split
    · simp [Extraction.refuse, Verdict.ofExn_parseError]
    · next groups _ =>
      split
      · next exn hexn =>
        have := of_digits py groups.status
        rw [hexn] at this
        exact this
      · rw [Verdict.of_map]
        exact of_digits py groups.bytes
  · simp only [lineVerdict, parser, PlainTextParser.parser, PlainTextParser.parse]
    split
    · simp [Extraction.refuse, Verdict.ofExn_parseError]
    · rw [Verdict.of_map]
      exact of_foldlM (of_absorbPair py) _ _
  · simp only [lineVerdict, parser, SyslogParser.parser, SyslogParser.parse]
    split
    · simp [Extraction.refuse, Verdict.ofExn_parseError]
    · next groups _ =>
      split
      · next exn hexn =>
        have := of_priorityLevel py groups.pri
        rw [hexn] at this
        exact this
      · simp
  · simp only [lineVerdict, parser, NginxErrorLogParser.parser, NginxErrorLogParser.parse]
    split
    · simp [Extraction.refuse, Verdict.ofExn_parseError]
    · simp

/-! ## The verdict is what the parser does -/

theorem of_group (spec : CustomParserSpec) (a : RegexParser.Assigned) (group value : Text) :
    Verdict.of (RegexParser.step py spec a group value) = groupVerdict py spec group value := by
  unfold RegexParser.step groupVerdict
  dsimp only
  generalize ((spec.fieldMap.find? (·.1 = normaliseKey py group)).map (·.2)).getD (normaliseKey py group) = canonical
  by_cases hmeta : group ∈ spec.metadataGroups
  · rw [if_pos hmeta, if_pos (.inl hmeta)]
    rfl
  · rw [if_neg hmeta]
    unfold RegexParser.assign
    dsimp only
    by_cases htime : canonical = Text.ofString "timestamp"
    · rw [if_pos htime, if_pos (.inr htime)]
      rfl
    · rw [if_neg htime, if_neg (not_or_intro hmeta htime)]
      split
      · rw [Verdict.of_map, of_coerceInt]
      · split
        · rw [Verdict.of_map, of_durationText]
        · split
          · rw [Verdict.of_map, of_coerceInt]
          · split <;> rfl

theorem of_absorb (spec : CustomParserSpec) (raw : Text) (groups : List (Text × Text)) : ∀ a : RegexParser.Assigned,
    Verdict.of (RegexParser.absorb py spec raw groups a).outcome =
      .first (groups.map fun x => groupVerdict py spec x.1 x.2) := by
  induction groups with
  | nil => exact fun a => rfl
  | cons x rest ih =>
    intro a
    obtain ⟨group, value⟩ := x
    rw [RegexParser.absorb, List.map_cons, Verdict.first, List.foldr_cons, ← of_group py spec a]
    cases hstep : RegexParser.step py spec a group value with
    | error exn => exact (Verdict.ofExn_andThen exn _).symm
    | ok a' => exact ih a'

/-- The outcome of a parse is the verdict on the payload. -/
theorem of_outcome (kind : ParserKind) (payload : Payload Dict) (context : ParseContext) :
    Verdict.of (kind.extraction py patterns payload context).outcome = kind.payloadVerdict py patterns payload context := by
  cases payload with
  | mapping record => exact of_parseRecord py context record none
  | text line =>
    cases kind with
    | json =>
      simp only [extraction, payloadVerdict, lineVerdict, parser, JsonLineParser.parser, JsonLineParser.parse]
      split
      · rfl
      · cases hload : py.loads (line.strip.reverse.dropWhile (· = Timeutil.char ',')).reverse with
        | error cls => rfl
        | ok value =>
          cases value with
          | dict record => exact of_parseRecord py context record (some line)
          | _ => rfl
    | csv =>
      simp only [extraction, payloadVerdict, lineVerdict, parser, CsvRowParser.parser, CsvRowParser.parse]
      rcases context.header with _ | _ | ⟨name, names⟩
      · rfl
      · rfl
      · cases hrow : py.csvRow line with
        | error exn => rfl
        | ok row => exact of_parseRecord py context _ none
    | keyvalue =>
      simp only [extraction, payloadVerdict, lineVerdict, parser, KeyValueParser.parser, KeyValueParser.parse]
      split
      · rfl
      · exact of_parseRecord py context _ none
    | custom spec =>
      simp only [extraction, payloadVerdict, lineVerdict, parser, RegexParser.parser, RegexParser.parse]
      cases spec.lineMatch line.rstripNewlines with
      | none => rfl
      | some groups => exact of_absorb py spec line _ _
    | _ => rfl

end ParserKind

end LogAnalytics
