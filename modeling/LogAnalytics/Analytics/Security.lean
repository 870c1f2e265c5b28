import LogAnalytics.Api.CacheKeys
import LogAnalytics.Lib.Group
import LogAnalytics.Lib.Rounding
import LogAnalytics.Models.Value
/-!
# Security findings

The detections of `SecurityAnalyzer` from the rows of their queries, the score of a finding and
`_correlate`, which scores the findings of a subject again when they are of several types. Numbers
are exact; of the logarithm only its order is used.
-/
open LogAnalytics.Lib LogAnalytics.Api

namespace LogAnalytics.Security

inductive FindingType where
  | bruteForce
  | credentialStuffing
  | endpointScanning
  | sensitiveEndpointAccess
  | suspiciousUserAgent
  | requestFlood
  | secretInLog
  | anomalousErrorRate
  deriving DecidableEq, Repr

/-- `BASE_SCORES` -/
def baseScore : FindingType → ℚ
  | .bruteForce => 55
  | .credentialStuffing => 70
  | .endpointScanning => 45
  | .sensitiveEndpointAccess => 60
  | .suspiciousUserAgent => 35
  | .requestFlood => 40
  | .secretInLog => 65
  | .anomalousErrorRate => 30

/-- `Severity.from_score` -/
def fromScore (score : ℚ) : Severity :=
  if 90 ≤ score then .critical
  else if 70 ≤ score then .high
  else if 45 ≤ score then .medium
  else if 20 ≤ score then .low
  else .info

/-- `math.log10` -/
structure Log10 where
  value : ℤ → ℚ
  monotone : Monotone value
  one : value 1 = 0

/-- What scoring asks of the standard library. -/
structure Scoring where
  log10 : Log10
  /-- `_is_private` -/
  isPrivate : Text → Bool

/-- A finding; `noted` is what scoring does not look at, its times and its description. -/
structure SecurityFinding (R : Type) where
  type : FindingType
  severity : Severity
  riskScore : ℚ
  subject : Text
  eventCount : ℤ
  evidence : Dict
  noted : R

variable {R : Type}

/-! ## Scores -/

section
variable (s : Scoring)

def volumeBonus (volume : ℤ) : ℚ := min 32 (8 * s.log10.value (max volume 1))

def breadthBonus (distinct : ℤ) : ℚ := min 10 (5 / 2 * s.log10.value (max distinct 1) * 2)

def correlationBonus (correlatedSignals : ℕ) : ℚ := min 15 (((correlatedSignals : ℚ) - 1) * (15 / 2))

def penalty (publicSource : Bool) : ℚ := if publicSource then 0 else 12

/-- All that a score is made of, before it is put on the scale. -/
def riskSum (type : FindingType) (volume distinct : ℤ) (publicSource : Bool) (correlatedSignals : ℕ) : ℚ :=
  baseScore type + volumeBonus s volume + breadthBonus s distinct + correlationBonus correlatedSignals - penalty publicSource

/-- From 0 to 100, in hundredths. -/
def toScale (sum : ℚ) : ℚ := roundTo 2 (max 0 (min 100 sum))

def scoreFinding (type : FindingType) (volume distinct : ℤ) (publicSource : Bool) (correlatedSignals : ℕ) : ℚ :=
  toScale (riskSum s type volume distinct publicSource correlatedSignals)

/-! ## Detections -/

/-- The columns of the queries; each query has some of them. -/
structure Row (R : Type) where
  subject : Option Text
  /-- `attempts`, `requests` or `occurrences` -/
  count : ℤ
  users : ℤ := 0
  /-- `endpoints` or `paths` -/
  paths : ℤ := 0
  loggers : ℤ := 0
  userAgent : Option Text := none
  samplePaths : List Text := []
  /-- `_duration_seconds` -/
  duration : ℚ := 0
  noted : R

/-- The arguments of `_finding`. -/
structure Draft (R : Type) where
  type : FindingType
  subject : Text
  volume : ℤ
  distinct : ℤ
  evidence : Dict
  publicSource : Bool := true
  noted : R

/-- `str(row.get("subject") or "unknown")` -/
def Row.subjectText (row : Row R) : Text := (row.subject.filter (· ≠ [])).getD (Text.ofString "unknown")

/-- `n or 1` -/
def orOne (n : ℤ) : ℤ := if n = 0 then 1 else n

def count (key : String) (n : ℤ) : Text × Value := (Text.ofString key, .int n)

def number (key : String) (q : ℚ) : Text × Value := (Text.ofString key, .float (.finite q))

def agent (row : Row R) : Text × Value := (Text.ofString "user_agent", row.userAgent.elim .none .str)

/-- `_failed_authentication`; `window` is `failed_auth_window_seconds`. -/
def failedAuthentication (window : ℚ) (row : Row R) : Draft R where
  type := .bruteForce
  subject := row.subjectText
  volume := row.count
  distinct := orOne row.paths
  evidence := [count "attempts" row.count, count "distinct_users" row.users, count "distinct_endpoints" row.paths,
    number "duration_seconds" (roundTo 1 row.duration), agent row,
    (Text.ofString "concentrated", .bool (row.duration ≤ window || row.duration = 0))]
  noted := row.noted

def credentialStuffing (row : Row R) : Draft R where
  type := .credentialStuffing
  subject := row.subjectText
  volume := row.count
  distinct := row.users
  evidence := [count "attempts" row.count, count "distinct_users" row.users]
  noted := row.noted

def endpointScanning (row : Row R) : Draft R where
  type := .endpointScanning
  subject := row.subjectText
  volume := row.count
  distinct := row.paths
  evidence := [count "requests" row.count, count "distinct_paths" row.paths, agent row]
  noted := row.noted

def sensitiveEndpoints (row : Row R) : Draft R where
  type := .sensitiveEndpointAccess
  subject := row.subjectText
  volume := row.count
  distinct := row.paths
  evidence := [count "requests" row.count, (Text.ofString "paths", .list (row.samplePaths.map .str))]
  noted := row.noted

def suspiciousUserAgents (row : Row R) : Draft R where
  type := .suspiciousUserAgent
  subject := row.subjectText
  volume := row.count
  distinct := orOne row.paths
  evidence := [count "requests" row.count, agent row]
  noted := row.noted

/-- `_request_floods`: none where the rate is below one request a second. -/
def requestFloods (row : Row R) : Option (Draft R) :=
  let duration := max row.duration 1
  let rate := row.count / duration
  if rate < 1 then none
  else some {
    type := .requestFlood
    subject := row.subjectText
    volume := row.count
    distinct := orOne row.paths
    evidence := [count "requests" row.count, number "requests_per_second" (roundTo 2 rate),
      number "duration_seconds" (roundTo 1 duration)]
    noted := row.noted }

def secretsInLogs (row : Row R) : Draft R where
  type := .secretInLog
  subject := row.subjectText
  volume := row.count
  distinct := orOne row.loggers
  evidence := [count "occurrences" row.count, count "distinct_loggers" row.loggers]
  publicSource := false
  noted := row.noted

inductive Detection where
  | failedAuthentication | credentialStuffing | endpointScanning | sensitiveEndpoints | suspiciousUserAgents
  | requestFloods | secretsInLogs

def Detection.draft (window : ℚ) (row : Row R) : Detection → Option (Draft R)
  | failedAuthentication => some (Security.failedAuthentication window row)
  | credentialStuffing => some (Security.credentialStuffing row)
  | endpointScanning => some (Security.endpointScanning row)
  | sensitiveEndpoints => some (Security.sensitiveEndpoints row)
  | suspiciousUserAgents => some (Security.suspiciousUserAgents row)
  | requestFloods => Security.requestFloods row
  | secretsInLogs => some (Security.secretsInLogs row)

/-- What the detections make of rows of their queries. -/
def detected (window : ℚ) (rows : List (Detection × Row R)) : List (Draft R) :=
  rows.filterMap fun found => found.1.draft window found.2

/-- `public_source and not _is_private(subject)` -/
def Draft.isPublic (draft : Draft R) : Bool := draft.publicSource && !s.isPrivate draft.subject

/-- `_finding` -/
def finding (draft : Draft R) : SecurityFinding R :=
  let score := scoreFinding s draft.type draft.volume draft.distinct (draft.isPublic s) 1
  { type := draft.type
    severity := fromScore score
    riskScore := score
    subject := draft.subject
    eventCount := draft.volume
    evidence := draft.evidence
    noted := draft.noted }

/-! ## Correlation -/

/-- `len({f.type for f in group})` -/
def signals (group : List (SecurityFinding R)) : ℕ := (group.map (·.type)).dedup.length

/-- A finding of a subject with so many signals. -/
def rescored (subject : Text) (signals : ℕ) (finding : SecurityFinding R) : SecurityFinding R :=
  if signals ≤ 1 then finding
  else
    let score := scoreFinding s finding.type finding.eventCount (max 1 finding.evidence.length)
      (!s.isPrivate subject) signals
    { finding with
      riskScore := score
      severity := fromScore score
      evidence := finding.evidence.set (Text.ofString "correlated_signals") (.int signals) }

/-- `_correlate` -/
def correlate (findings : List (SecurityFinding R)) : List (SecurityFinding R) :=
  (groupBy (·.subject) findings).flatMap fun group => group.2.map (rescored s group.1 (signals group.2))

/-- The signals of a finding's subject. -/
def signalsOf (findings : List (SecurityFinding R)) (subject : Text) : ℕ := signals (findings.filter (·.subject = subject))

/-- What becomes of a finding among the others. -/
def correlated (findings : List (SecurityFinding R)) (finding : SecurityFinding R) : SecurityFinding R :=
  rescored s finding.subject (signalsOf findings finding.subject) finding

/-- The sum a finding is scored by at first. -/
def before (draft : Draft R) : ℚ := riskSum s draft.type draft.volume draft.distinct (draft.isPublic s) 1

/-- The sum with a second signal: the breadth is now the number of entries in the evidence, and the
source is public unless its address is private. -/
def after (draft : Draft R) : ℚ :=
  riskSum s draft.type draft.volume (max 1 draft.evidence.length) (!s.isPrivate draft.subject) 2

/-- With two signals, what the breadth loses the second signal makes up for (with the discount of an
internal source, where that falls away), or it is lost in the cap and the rounding of the scale. -/
def MadeUpFor (draft : Draft R) : Prop :=
  breadthBonus s draft.distinct + penalty (!s.isPrivate draft.subject) ≤
      breadthBonus s (max 1 draft.evidence.length) + 15 / 2 + penalty (draft.isPublic s) ∨
    toScale (before s draft) = toScale (after s draft)

end

theorem toScale_mono : Monotone toScale := fun _ _ h => roundTo_mono 2 (max_le_max le_rfl (min_le_min le_rfl h))

variable {s : Scoring}

theorem breadthBonus_nonneg (distinct : ℤ) : 0 ≤ breadthBonus s distinct := by
  have hlog : 0 ≤ s.log10.value (max distinct 1) := s.log10.one ▸ s.log10.monotone (le_max_right _ _)
  refine le_min (by norm_num) ?_
  linarith

theorem breadthBonus_le (distinct : ℤ) : breadthBonus s distinct ≤ 10 := min_le_left _ _

theorem penalty_le (draft : Draft R) : penalty (!s.isPrivate draft.subject) ≤ penalty (draft.isPublic s) := by
  unfold Draft.isPublic
  cases draft.publicSource <;> cases s.isPrivate draft.subject <;> simp [penalty]

theorem correlationBonus_two : correlationBonus 2 = 15 / 2 := by
  norm_num [correlationBonus]

theorem correlationBonus_many {n : ℕ} (h : 3 ≤ n) : correlationBonus n = 15 := by
  have hn : (3 : ℚ) ≤ n := by exact_mod_cast h
  exact min_eq_left (by linarith)

/-! ## One finding for each -/

/-- The findings, each as it becomes among the others, subject by subject. -/
theorem correlate_perm (findings : List (SecurityFinding R)) :
    (correlate s findings).Perm (findings.map (correlated s findings)) := by
  have hgroups : correlate s findings =
      (groupBy (·.subject) findings).flatMap fun group => group.2.map (correlated s findings) := by
    refine List.flatMap_congr fun group hgroup => List.map_congr_left fun f hf => ?_
    have hsubject : f.subject = group.1 := groupBy_keyed _ findings group hgroup f hf
    have hbucket : group.2 = findings.filter (·.subject = group.1) :=
      (grouped_groupBy (·.subject) findings).2.1 group hgroup
    rw [correlated, signalsOf, hsubject, ← hbucket]
  rw [hgroups]
  exact groupBy_map_perm _ findings _

theorem correlated_single {findings : List (SecurityFinding R)} {f : SecurityFinding R}
    (h : signalsOf findings f.subject ≤ 1) : correlated s findings f = f := if_pos h

/-! ## The score of one finding -/

/-- Before and after differ in the breadth, the second signal and the discount. -/
theorem after_sub_before (draft : Draft R) :
    after s draft - before s draft = breadthBonus s (max 1 draft.evidence.length) + 15 / 2 + penalty (draft.isPublic s) -
      (breadthBonus s draft.distinct + penalty (!s.isPrivate draft.subject)) := by
  have hone : correlationBonus 1 = 0 := by norm_num [correlationBonus]
  unfold after before riskSum
  rw [correlationBonus_two, hone]
  ring

theorem two_signals (draft : Draft R) : toScale (before s draft) ≤ toScale (after s draft) ↔ MadeUpFor s draft := by
  have hdiff := after_sub_before (s := s) draft
  constructor
  · intro hle
    rcases le_total (before s draft) (after s draft) with hup | hdown
    · exact .inl (by linarith)
    · exact .inr (le_antisymm hle (toScale_mono hdown))
  · rintro (hmade | hsame)
    · exact toScale_mono (by linarith)
    · exact hsame.le

/-- Three signals add more than any breadth does. -/
theorem many_signals (draft : Draft R) {n : ℕ} (hn : 3 ≤ n) :
    toScale (before s draft) ≤ toScale (riskSum s draft.type draft.volume (max 1 draft.evidence.length)
      (!s.isPrivate draft.subject) n) := by
  have hone : correlationBonus 1 = 0 := by norm_num [correlationBonus]
  refine toScale_mono ?_
  unfold before riskSum
  rw [correlationBonus_many hn, hone]
  linarith [breadthBonus_le (s := s) draft.distinct, breadthBonus_nonneg (s := s) (max 1 draft.evidence.length),
    penalty_le (s := s) draft]

/-- One finding comes out for each that goes in, unchanged for a subject with one type; and no score
is lowered exactly when, for every subject with two types, what the breadth loses is made up for. -/
theorem correlate_raises_iff (s : Scoring) (window : ℚ) (rows : List (Detection × Row R)) :
    (correlate s ((detected window rows).map (finding s))).Perm
      (((detected window rows).map (finding s)).map (correlated s ((detected window rows).map (finding s)))) ∧
    (∀ f ∈ (detected window rows).map (finding s), signalsOf ((detected window rows).map (finding s)) f.subject ≤ 1 →
      correlated s ((detected window rows).map (finding s)) f = f) ∧
    ((∀ f ∈ (detected window rows).map (finding s),
        f.riskScore ≤ (correlated s ((detected window rows).map (finding s)) f).riskScore) ↔
      ∀ draft ∈ detected window rows,
        signalsOf ((detected window rows).map (finding s)) draft.subject = 2 → MadeUpFor s draft) := by
  generalize detected window rows = drafts
  refine ⟨correlate_perm _, fun f _ h => correlated_single h, ?_⟩
  rw [List.forall_mem_map]
  refine forall₂_congr fun draft _ => ?_
  generalize hn : signalsOf (drafts.map (finding s)) draft.subject = n
  have hn' : signalsOf (drafts.map (finding s)) (finding s draft).subject = n := hn
  rw [correlated, hn', rescored]
  rcases lt_trichotomy n 2 with hfew | rfl | hmany
  · rw [if_pos (by omega)]
    exact iff_of_true le_rfl fun h => absurd h (by omega)
  · rw [if_neg (by decide)]
    exact (two_signals draft).trans ⟨fun h _ => h, fun h => h rfl⟩
  · rw [if_neg (by omega)]
    exact iff_of_true (many_signals draft hmany) fun h => absurd h (by omega)

/-- A logarithm for the counts 1, 2, 6 and 100. -/
def roughLog10 : Log10 where
  value n := if n < 2 then 0 else if n < 6 then 3010299956639812 / 10 ^ 16 else if n < 100 then 7781512503836436 / 10 ^ 16 else 2
  monotone := by
    intro a b hab
    dsimp only
    split_ifs <;> first | omega | norm_num
  one := by decide

/-- A hundred accounts tried once each from one public address, at one endpoint. -/
def sprayed : Row Unit where
  subject := some (Text.ofString "8.8.8.8")
  count := 100
  users := 100
  paths := 1
  duration := 60
  noted := ()

/-- The address is found by two detections, and the second score of the stuffing is 95.01 after 96. -/
theorem correlate_lowers_stuffing :
    ¬∀ f ∈ (detected 300 [(.failedAuthentication, sprayed), (.credentialStuffing, sprayed)]).map (finding ⟨roughLog10, fun _ => false⟩),
      f.riskScore ≤ (correlated ⟨roughLog10, fun _ => false⟩
        ((detected 300 [(.failedAuthentication, sprayed), (.credentialStuffing, sprayed)]).map (finding ⟨roughLog10, fun _ => false⟩))
        f).riskScore := by
  intro h
  have hstuffing := h (finding _ (credentialStuffing sprayed)) (List.mem_cons_of_mem _ List.mem_cons_self)
  revert hstuffing
  decide +kernel

end LogAnalytics.Security
