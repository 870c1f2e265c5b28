import LogAnalytics.Models.LogEvent
import LogAnalytics.Validation.Issues
/-!
# Record validation

`RecordValidator.validate`: the rules in their order, up to the first fatal issue. One rule
asks the clock, `timestamp_range`; the others look at the body of the event only.
-/

namespace LogAnalytics

structure ValidationSettings where
  requireTimestamp : Bool := true
  requireMessage : Bool := false
  maxFutureSkewSeconds : Nat := 300
  maxAgeDays : Nat := 3650
  maxMessageLength : Nat := 32768
  allowedLevels : List LogLevel := LogLevel.members

/-- A rule; what it raises stops the validation. -/
abbrev Rule := Clock → LogEvent → Except Exn (Option ValidationIssue)

namespace RecordValidator

/-- `f"{seconds:.0f}"` of a positive time span. -/
def wholeSeconds (micros : Nat) : Nat :=
  let seconds := micros / 10 ^ 6
  let rest := micros % 10 ^ 6
  if rest < 500000 ∨ (rest = 500000 ∧ seconds % 2 = 0) then seconds else seconds + 1

/-- An event always has one. -/
def timestampPresent : Rule := fun _ _ => .ok none

def timestampRange (cfg : ValidationSettings) : Rule := fun now event =>
  let ts := event.timestamp
  if ¬(Timeutil.minTimestamp ≤ ts ∧ ts ≤ Timeutil.maxTimestamp) then
    .ok (some { rule := "timestamp_range", reason := .timestampOutOfRange, detail := "timestamp outside supported epoch" })
  else
    match now.add (cfg.maxFutureSkewSeconds * 10 ^ 6) with
    | .error exn => .error exn
    | .ok latest =>
      if latest < ts then
        .ok (some
          { rule := "timestamp_future", reason := .timestampOutOfRange
            detail := s!"timestamp is {wholeSeconds (ts.micros - now.micros)}s in the future" })
      else
        match now.add (-(cfg.maxAgeDays * dayMicros)) with
        | .error exn => .error exn
        | .ok oldest =>
          if ts < oldest then
            .ok (some
              { rule := "timestamp_stale", reason := .timestampOutOfRange, severity := .warning
                detail := "record is older than the retention window" })
          else .ok none

/-- A rule that looks at the body of an event. -/
def bodyRule (check : EventBody → Option ValidationIssue) : Rule := fun _ event => .ok (check event.body)

def messagePresent (cfg : ValidationSettings) : EventBody → Option ValidationIssue := fun b =>
  if b.message.strip ≠ [] then none
  else some
    { rule := "message_present", reason := .missingMessage
      severity := if cfg.requireMessage then .error else .warning, detail := "empty message" }

def messageLength (cfg : ValidationSettings) : EventBody → Option ValidationIssue := fun b =>
  if cfg.maxMessageLength < b.message.length then
    some { rule := "message_length", reason := .messageTooLong, detail := s!"message is {b.message.length} chars" }
  else none

def levelAllowed (cfg : ValidationSettings) : EventBody → Option ValidationIssue := fun b =>
  if b.level ∈ cfg.allowedLevels then none
  else some
    { rule := "level_allowed", reason := .invalidLevel, severity := .warning
      detail := s!"level {b.level.toStr} is not in the allow-list" }

def statusCodeValid : EventBody → Option ValidationIssue := fun b =>
  b.statusCode.bind fun status =>
    if 100 ≤ status ∧ status ≤ 599 then none
    else some { rule := "status_code_valid", reason := .invalidStatusCode, detail := s!"status {status} outside 100-599" }

/-- `value < 0 or value > 86_400_000`, which is false of NaN. -/
def implausible : PyFloat → Bool
  | .finite q => q < 0 || 86400000 < q
  | .infinite _ => true
  | .nan => false

def responseTimeValid (repr : PyFloat → String) : EventBody → Option ValidationIssue := fun b =>
  b.responseTimeMs.bind fun rt =>
    if implausible rt then
      some { rule := "response_time_valid", reason := .invalidResponseTime, detail := s!"response time {repr rt} ms is implausible" }
    else none

def ipValid (py : Python) : EventBody → Option ValidationIssue := fun b =>
  b.ipAddress.bind fun ip =>
    if (py.ipAddress ip).isSome then none
    else some { rule := "ip_valid", reason := .invalidIp, severity := .warning, detail := "unparseable IP address" }

/-- An HTTP record needs a method or a status. -/
def schemaConsistency : EventBody → Option ValidationIssue := fun b =>
  if b.endpoint.getD [] ≠ [] ∧ b.statusCode = none ∧ b.httpMethod = none then
    some
      { rule := "schema_consistency", reason := .schemaViolation, severity := .warning
        detail := "endpoint present without method or status" }
  else none

/-- The rules behind `timestamp_range`, in their order. -/
def bodyChecks (py : Python) (repr : PyFloat → String) (cfg : ValidationSettings) :
    List (EventBody → Option ValidationIssue) :=
  [messagePresent cfg, messageLength cfg, levelAllowed cfg, statusCodeValid, responseTimeValid repr, ipValid py,
    schemaConsistency]

/-- `_build_rules` -/
def rules (py : Python) (repr : PyFloat → String) (cfg : ValidationSettings) : List Rule :=
  (if cfg.requireTimestamp then [timestampPresent] else []) ++
    timestampRange cfg :: (bodyChecks py repr cfg).map bodyRule

/-- `validate` from the issues found so far. -/
def validateFrom (now : Clock) (event : LogEvent) : List Rule → List ValidationIssue → Except Exn ValidationResult
  | [], issues => .ok { valid := true, issues := issues }
  | rule :: rest, issues =>
    match rule now event with
    | .error exn => .error exn
    | .ok none => validateFrom now event rest issues
    | .ok (some issue) =>
      if issue.isFatal then .ok { valid := false, issues := issues ++ [issue] }
      else validateFrom now event rest (issues ++ [issue])

def validate (py : Python) (repr : PyFloat → String) (cfg : ValidationSettings) (now : Clock) (event : LogEvent) :
    Except Exn ValidationResult :=
  validateFrom now event (rules py repr cfg) []

/-! ## What makes an event valid -/

/-- No check of the body finds a fatal issue. -/
def soundBody (py : Python) (repr : PyFloat → String) (cfg : ValidationSettings) (b : EventBody) : Bool :=
  (bodyChecks py repr cfg).all fun check => (check b).all (!·.isFatal)

/-- The times an event may have at `now`. -/
structure InSeason (cfg : ValidationSettings) (now ts : Clock) : Prop where
  min_le : Timeutil.minTimestamp ≤ ts
  le_max : ts ≤ Timeutil.maxTimestamp
  /-- The window around the clock is within the calendar. -/
  window : ∃ latest oldest, now.add (cfg.maxFutureSkewSeconds * 10 ^ 6) = .ok latest ∧ ts ≤ latest ∧
    now.add (-(cfg.maxAgeDays * dayMicros)) = .ok oldest

/-- The checks of the body raise nothing, and the first fatal issue ends them. -/
theorem validateFrom_body (now : Clock) (event : LogEvent) (checks : List (EventBody → Option ValidationIssue)) :
    ∀ issues, ∃ result, validateFrom now event (checks.map bodyRule) issues = .ok result ∧
      (result.valid = true ↔ checks.all (fun check => (check event.body).all (!·.isFatal)) = true) := by
  induction checks with
  | nil => exact fun issues => ⟨_, rfl, by simp⟩
  | cons check checks ih =>
    intro issues
    rw [List.map_cons, validateFrom, List.all_cons]
    cases hcheck : check event.body with
    | none => simpa only [bodyRule, hcheck, Option.all_none, Bool.true_and] using ih issues
    | some issue =>
      by_cases hfatal : issue.isFatal = true
      · refine ⟨{ valid := false, issues := issues ++ [issue] }, ?_, by simp [hfatal]⟩
        simp only [bodyRule, hcheck, hfatal, if_true]
      · simpa [bodyRule, hcheck, hfatal] using ih (issues ++ [issue])

variable {py : Python} {repr : PyFloat → String} {cfg : ValidationSettings} {now : Clock} {event : LogEvent}

/-- What `timestamp_range` finds is not fatal exactly in season. -/
theorem timestampRange_inSeason :
    InSeason cfg now event.timestamp ↔
      ∃ issue, timestampRange cfg now event = .ok issue ∧ issue.all (!·.isFatal) = true := by
  unfold timestampRange
  dsimp only
  split
  · next hout =>
    refine ⟨fun h => absurd ⟨h.min_le, h.le_max⟩ hout, ?_⟩
    rintro ⟨issue, hissue, hfatal⟩
    cases hissue
    exact absurd hfatal (by decide)
  · next hin =>
    have hbounds := Decidable.not_not.1 hin
    split
    · next exn hlatest =>
      refine ⟨fun h => ?_, fun ⟨issue, hissue, _⟩ => nomatch hissue⟩
      obtain ⟨latest, _, h', _⟩ := h.window
      rw [hlatest] at h'
      cases h'
    · next latest hlatest =>
      split
      · next hfuture =>
        refine ⟨fun h => ?_, ?_⟩
        · obtain ⟨latest', _, h', hle, _⟩ := h.window
          rw [hlatest] at h'
          cases h'
          exact absurd hfuture (Nat.not_lt.2 hle)
        · rintro ⟨issue, hissue, hfatal⟩
          cases hissue
          exact absurd hfatal (by simp [ValidationIssue.isFatal])
      · next hpast =>
        split
        · next exn holdest =>
          refine ⟨fun h => ?_, fun ⟨issue, hissue, _⟩ => nomatch hissue⟩
          obtain ⟨_, oldest, _, _, h'⟩ := h.window
          rw [holdest] at h'
          cases h'
        · next oldest holdest =>
          have hseason : InSeason cfg now event.timestamp :=
            ⟨hbounds.1, hbounds.2, latest, oldest, hlatest, Nat.not_lt.1 hpast, holdest⟩
          refine ⟨fun _ => ?_, fun _ => hseason⟩
          split
          · exact ⟨_, rfl, rfl⟩
          · exact ⟨_, rfl, rfl⟩

/-- An event passes when its time is in season and its body is sound. -/
theorem validate_valid :
    (∃ result, validate py repr cfg now event = .ok result ∧ result.valid = true) ↔
      InSeason cfg now event.timestamp ∧ soundBody py repr cfg event.body = true := by
  have hskip : validate py repr cfg now event =
      validateFrom now event (timestampRange cfg :: (bodyChecks py repr cfg).map bodyRule) [] := by
    unfold validate rules
    cases cfg.requireTimestamp <;> rfl
  rw [hskip, validateFrom, timestampRange_inSeason, soundBody]
  cases hrange : timestampRange cfg now event with
  | error exn => simp
  | ok issue =>
    cases issue with
    | none =>
      obtain ⟨result, hresult, hvalid⟩ := validateFrom_body now event (bodyChecks py repr cfg) []
      simp [hresult, hvalid]
    | some issue =>
      obtain ⟨result, hresult, hvalid⟩ := validateFrom_body now event (bodyChecks py repr cfg) [issue]
      by_cases hfatal : issue.isFatal = true
      · simp [hfatal]
      · simp [hfatal, hresult, hvalid]

/-! ## What a rejection is filed under -/

end RecordValidator

end LogAnalytics
