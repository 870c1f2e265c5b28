import Mathlib.Tactic.Linarith
import Mathlib.Tactic.Ring
import LogAnalytics.CircuitBreaker
/-!
# Calls through the circuit breaker

`call` and what `_guard` does with a breaker, one call after the other: `allows`,
`record_success` and `record_failure` as whole functions, which are what a thread does that nobody
interrupts. The breaker refuses exactly when the last calls it let through failed often and recently
enough, and a dead dependency is called a bounded number of times.
-/
open LogAnalytics.Lib

namespace LogAnalytics

namespace CircuitBreaker

/-- The property `state`: an open breaker whose timeout has elapsed becomes half open. -/
def look (b : CircuitBreaker) (now : ℚ) : CircuitBreaker :=
  if b.state = .opened ∧ b.resetTimeout ≤ now - b.openedAt then { b with state := .halfOpen } else b

def allows (b : CircuitBreaker) (now : ℚ) : Bool × CircuitBreaker := ((b.look now).state ≠ .opened, b.look now)

def recordSuccess (b : CircuitBreaker) : CircuitBreaker := { b with failures := 0, state := .closed }

def recordFailure (b : CircuitBreaker) (now : ℚ) : CircuitBreaker :=
  let counted := { b with failures := b.failures + 1 }
  if b.failureThreshold ≤ counted.failures then { counted with state := .opened, openedAt := now } else counted

/-- Why `call` raises. -/
inductive CallError (ε : Type) where
  /-- `RetryExhaustedError("circuit breaker is open", state=...)` -/
  | retryExhausted (state : BreakerState)
  | raised (error : ε)
  deriving DecidableEq

/-- The clock is read when the call is asked for and when a failure is recorded. -/
def call {ε α : Type} (b : CircuitBreaker) (now later : ℚ) (func : Except ε α) : Except (CallError ε) α × CircuitBreaker :=
  let (allowed, b) := b.allows now
  if allowed then
    match func with
    | .error e => (.error (.raised e), b.recordFailure later)
    | .ok result => (.ok result, b.recordSuccess)
  else (.error (.retryExhausted b.state), b)

/-! ## Without interruption -/

namespace Shared

/-- `allows` by a thread that nobody interrupts. -/
theorem allows_runs (s : Shared) {i : CallId} (now : ℚ) (hi : s.call i = none) :
    ∃ n tr, runs Shared.step s (.allows i :: List.replicate n (.next i now)) =
      some (⟨(s.breaker.allows now).2, Function.update s.call i (some (.answered (s.breaker.allows now).1))⟩, tr) := by
  by_cases hopen : s.breaker.state = .opened
  · by_cases helapsed : s.breaker.resetTimeout ≤ now - s.breaker.openedAt
    · refine ⟨4, [.halfOpened, .admitted i], ?_⟩
      simp [runs, List.replicate, step, enter, hi, advance, hopen, helapsed, allows, look]
    · refine ⟨3, [.refused i], ?_⟩
      simp [runs, List.replicate, step, enter, hi, advance, hopen, helapsed, allows, look]
  · refine ⟨2, [.admitted i], ?_⟩
    simp [runs, List.replicate, step, enter, hi, advance, hopen, allows, look]

theorem recordSuccess_runs (s : Shared) {i : CallId} (now : ℚ) (hi : s.call i = none) :
    ∃ n tr, runs Shared.step s (.recordSuccess i :: List.replicate n (.next i now)) =
      some (⟨s.breaker.recordSuccess, Function.update s.call i (some .recorded)⟩, tr) := by
  refine ⟨2, [.recorded i], ?_⟩
  simp [runs, List.replicate, step, enter, hi, advance, recordSuccess]

theorem recordFailure_runs (s : Shared) {i : CallId} (now : ℚ) (hi : s.call i = none) :
    ∃ n tr, runs Shared.step s (.recordFailure i :: List.replicate n (.next i now)) =
      some (⟨s.breaker.recordFailure now, Function.update s.call i (some .recorded)⟩, tr) := by
  by_cases htrips : s.breaker.failureThreshold ≤ s.breaker.failures + 1
  · refine ⟨5, [.recorded i], ?_⟩
    simp [runs, List.replicate, step, enter, hi, advance, recordFailure, htrips]
  · refine ⟨3, [.recorded i], ?_⟩
    simp [runs, List.replicate, step, enter, hi, advance, recordFailure, htrips]

end Shared

theorem recordFailure_cases (b : CircuitBreaker) (now : ℚ) :
    (b.failureThreshold ≤ b.failures + 1 ∧
      b.recordFailure now = { b with failures := b.failures + 1, state := .opened, openedAt := now }) ∨
    (b.failures + 1 < b.failureThreshold ∧ b.recordFailure now = { b with failures := b.failures + 1 }) := by
  unfold recordFailure
  by_cases htrips : b.failureThreshold ≤ b.failures + 1
  · exact .inl ⟨htrips, if_pos htrips⟩
  · exact .inr ⟨not_le.1 htrips, if_neg htrips⟩

/-! ## A history of calls -/

/-- One call: when it is asked for, when its outcome is recorded, and whether it fails if it is let through. -/
structure Attempt where
  now : ℚ
  later : ℚ
  fails : Bool
  deriving DecidableEq

/-- What a call does to the breaker. -/
def attempt (b : CircuitBreaker) (a : Attempt) : CircuitBreaker :=
  if (b.allows a.now).1 then
    if a.fails then (b.look a.now).recordFailure a.later else (b.look a.now).recordSuccess
  else b.look a.now

def after (b : CircuitBreaker) (history : List Attempt) : CircuitBreaker := history.foldl attempt b

/-- The calls that are let through. -/
def admitted : CircuitBreaker → List Attempt → List Attempt
  | _, [] => []
  | b, a :: history => (if (b.allows a.now).1 then [a] else []) ++ admitted (b.attempt a) history

theorem call_attempt {ε α : Type} (b : CircuitBreaker) (now later : ℚ) (func : Except ε α) :
    (b.call now later func).2 = b.attempt ⟨now, later, !func.isOk⟩ := by
  simp only [call, attempt, apply_ite Prod.snd]
  cases func <;> rfl

theorem admitted_append (history rest : List Attempt) : ∀ b : CircuitBreaker,
    b.admitted (history ++ rest) = b.admitted history ++ (b.after history).admitted rest := by
  induction history with
  | nil => exact fun _ => rfl
  | cons a history ih =>
    intro b
    rw [List.cons_append, admitted, ih, admitted, List.append_assoc]
    rfl

/-- The failures since the last success, the newest first. -/
def streak (calls : List Attempt) : List Attempt := calls.reverse.takeWhile Attempt.fails

theorem streak_snoc (calls : List Attempt) (a : Attempt) :
    streak (calls ++ [a]) = if a.fails then a :: streak calls else [] := by
  rw [streak, List.reverse_append, List.reverse_singleton, List.singleton_append, List.takeWhile_cons]
  rfl

/-- The breaker knows the failures since the last success among the calls it let through. -/
structure Tracks (b : CircuitBreaker) (calls : List Attempt) : Prop where
  failures : b.failures = (streak calls).length
  opened : b.state = .opened ↔ streak calls ≠ [] ∧ b.failureThreshold ≤ (streak calls).length
  closed : b.state = .opened ∨ b.state = .closed
  openedAt : ∀ last rest, streak calls = last :: rest → b.state = .opened → b.openedAt = last.later

theorem look_settings (b : CircuitBreaker) (now : ℚ) : (b.look now).failureThreshold = b.failureThreshold ∧
    (b.look now).resetTimeout = b.resetTimeout ∧ (b.look now).failures = b.failures := by
  unfold look
  split <;> exact ⟨rfl, rfl, rfl⟩

theorem attempt_settings (b : CircuitBreaker) (a : Attempt) : (b.attempt a).failureThreshold = b.failureThreshold ∧
    (b.attempt a).resetTimeout = b.resetTimeout := by
  obtain ⟨hthreshold, hreset, -⟩ := b.look_settings a.now
  unfold attempt recordFailure recordSuccess
  simp only
  split
  · split
    · split <;> exact ⟨hthreshold, hreset⟩
    · exact ⟨hthreshold, hreset⟩
  · exact ⟨hthreshold, hreset⟩

theorem after_settings (history : List Attempt) : ∀ b : CircuitBreaker,
    (b.after history).failureThreshold = b.failureThreshold ∧ (b.after history).resetTimeout = b.resetTimeout := by
  induction history with
  | nil => exact fun _ => ⟨rfl, rfl⟩
  | cons a history ih =>
    intro b
    obtain ⟨hthreshold, hreset⟩ := ih (b.attempt a)
    exact ⟨hthreshold.trans (b.attempt_settings a).1, hreset.trans (b.attempt_settings a).2⟩

/-- An open breaker refuses until its timeout has elapsed. -/
theorem allows_iff (b : CircuitBreaker) (now : ℚ) :
    (b.allows now).1 = false ↔ b.state = .opened ∧ now - b.openedAt < b.resetTimeout := by
  unfold allows look
  by_cases hopen : b.state = .opened
  · by_cases helapsed : b.resetTimeout ≤ now - b.openedAt
    · simp [hopen, helapsed]
    · simp [hopen, helapsed, not_le.1 helapsed]
  · simp [hopen]

/-- A refusal leaves the breaker as it is. -/
theorem look_of_refused {b : CircuitBreaker} {now : ℚ} (h : (b.allows now).1 = false) : b.look now = b := by
  obtain ⟨-, hlt⟩ := (b.allows_iff now).1 h
  unfold look
  exact if_neg fun helapsed => absurd helapsed.2 (not_le.2 hlt)

theorem Tracks.attempt {b : CircuitBreaker} {calls : List Attempt} (h : b.Tracks calls) (a : Attempt) :
    (b.attempt a).Tracks (calls ++ if (b.allows a.now).1 then [a] else []) := by
  obtain ⟨hthreshold, -, hfailures⟩ := b.look_settings a.now
  cases hallowed : (b.allows a.now).1 with
  | false =>
    rw [CircuitBreaker.attempt, hallowed, look_of_refused hallowed]
    simpa using h
  | true =>
    cases hfails : a.fails with
    | false =>
      have hstreak : streak (calls ++ [a]) = [] := by rw [streak_snoc, hfails]; rfl
      simp only [CircuitBreaker.attempt, hallowed, hfails, if_true]
      constructor <;> simp [recordSuccess, hstreak]
    | true =>
      have hstreak : streak (calls ++ [a]) = a :: streak calls := by rw [streak_snoc, hfails]; rfl
      simp only [CircuitBreaker.attempt, hallowed, hfails, if_true, recordFailure, hfailures, hthreshold, h.failures]
      split
      · next htrips =>
        constructor
        · simp [hstreak]
        · simpa [hstreak, hthreshold] using htrips
        · simp
        · intro last rest hlast _
          rw [hstreak] at hlast
          cases hlast
          rfl
      · next hbelow =>
        -- a breaker that was open had its threshold reached before this failure
        have hclosed : b.state = .closed := h.closed.resolve_left fun hopen => by
          have := (h.opened.1 hopen).2
          omega
        have hstate : (b.look a.now).state = .closed := by simp [look, hclosed]
        constructor
        · simp [hstreak]
        · simpa [hstreak, hthreshold, hstate] using hbelow
        · exact .inr hstate
        · intro last rest _ hopen
          simp [hstate] at hopen

theorem Tracks.after (history : List Attempt) : ∀ {b : CircuitBreaker} {calls : List Attempt}, b.Tracks calls →
    (b.after history).Tracks (calls ++ b.admitted history) := by
  induction history with
  | nil =>
    intro b calls h
    rwa [admitted, List.append_nil]
  | cons a history ih =>
    intro b calls h
    rw [admitted, ← List.append_assoc]
    exact ih (h.attempt a)

theorem tracks_new (failureThreshold : ℤ) (resetTimeout : ℚ) :
    Tracks { failureThreshold := failureThreshold, resetTimeout := resetTimeout } [] := by
  constructor <;> simp [streak]

/-- The breaker refuses a call exactly when the last calls it let through all failed, at least as many
as its threshold, and the last one of them less than the timeout ago. -/
theorem refuses_iff (failureThreshold : ℤ) (resetTimeout : ℚ) (history : List Attempt) (now : ℚ) :
    let b : CircuitBreaker := { failureThreshold := failureThreshold, resetTimeout := resetTimeout }
    ((b.after history).allows now).1 = false ↔ ∃ last rest, streak (b.admitted history) = last :: rest ∧
      failureThreshold ≤ (last :: rest).length ∧ now - last.later < resetTimeout := by
  intro b
  have h : (b.after history).Tracks (b.admitted history) := (tracks_new failureThreshold resetTimeout).after history
  obtain ⟨hthreshold, hreset⟩ := b.after_settings history
  rw [allows_iff, h.opened, hthreshold, hreset]
  constructor
  · rintro ⟨⟨hne, hmany⟩, hrecent⟩
    obtain ⟨last, rest, hstreak⟩ := List.exists_cons_of_ne_nil hne
    have hopen := h.opened.2 ⟨hne, hthreshold ▸ hmany⟩
    rw [h.openedAt last rest hstreak hopen] at hrecent
    exact ⟨last, rest, hstreak, hstreak ▸ hmany, hrecent⟩
  · rintro ⟨last, rest, hstreak, hmany, hrecent⟩
    have hne : streak (b.admitted history) ≠ [] := by simp [hstreak]
    have hopen := h.opened.2 ⟨hne, by rw [hthreshold, hstreak]; exact hmany⟩
    rw [h.openedAt last rest hstreak hopen, hstreak]
    exact ⟨⟨by simp, hmany⟩, hrecent⟩

/-- Two failures since the last success, the last of them twenty-nine seconds ago. -/
example : ((({ failureThreshold := 2 } : CircuitBreaker).after
    [⟨0, 0, false⟩, ⟨1, 2, true⟩, ⟨3, 4, true⟩]).allows 33).1 = false := by
  decide +kernel

/-! ## An outage -/

/-- The calls come one after the other between two instants. -/
def Between (start stop : ℚ) : List Attempt → Prop
  | [] => start ≤ stop
  | a :: rest => start ≤ a.now ∧ a.now ≤ a.later ∧ Between a.later stop rest

/-- How many failures in a row the breaker lets through before it opens, or one probe. -/
def slack (b : CircuitBreaker) : ℤ := if b.state = .opened then 1 else max 1 (b.failureThreshold - b.failures)

theorem one_le_slack (b : CircuitBreaker) : 1 ≤ b.slack := by
  unfold slack
  split
  · exact le_rfl
  · exact le_max_left ..

/-- From an open breaker the next probe is a timeout away; before it opens it has its slack. -/
theorem admitted_outage (outage : List Attempt) : ∀ {b : CircuitBreaker} {calls : List Attempt} {start stop : ℚ},
    b.Tracks calls → 0 ≤ b.resetTimeout → (∀ a ∈ outage, a.fails = true) → Between start stop outage →
      (b.state = .opened → b.openedAt ≤ start → (b.admitted outage).length * b.resetTimeout ≤ stop - b.openedAt) ∧
      (b.admitted outage).length * b.resetTimeout ≤ b.slack * b.resetTimeout + (stop - start) := by
  induction outage with
  | nil =>
    intro b calls start stop _ hreset _ hclock
    have hclock : start ≤ stop := hclock
    have hslack : (1 : ℚ) ≤ b.slack := by exact_mod_cast b.one_le_slack
    simp only [admitted, List.length_nil, Nat.cast_zero, zero_mul]
    constructor
    · intro _ hopened
      linarith
    · nlinarith
  | cons a outage ih =>
    intro b calls start stop h hreset hfails ⟨hstart, hlater, hclock⟩
    have hrest : ∀ a ∈ outage, a.fails = true := fun x hx => hfails x (List.mem_cons_of_mem _ hx)
    obtain ⟨hthreshold, htimeout, hfailures⟩ := b.look_settings a.now
    have hnext := ih (h.attempt a) (by rw [(b.attempt_settings a).2]; exact hreset) hrest hclock
    rw [(b.attempt_settings a).2] at hnext
    cases hallowed : (b.allows a.now).1 with
    | false =>
      have hsame : b.attempt a = b := by
        rw [CircuitBreaker.attempt, hallowed, look_of_refused hallowed]
        rfl
      rw [hsame] at hnext
      simp only [admitted, hallowed, Bool.false_eq_true, if_false, List.nil_append, hsame]
      refine ⟨fun hopen hopened => hnext.1 hopen (by linarith), ?_⟩
      have := hnext.2
      linarith
    | true =>
      have hfail : b.attempt a = (b.look a.now).recordFailure a.later := by
        simp only [CircuitBreaker.attempt, hallowed, hfails a List.mem_cons_self, if_true]
      simp only [admitted, hallowed, if_true, List.singleton_append, List.length_cons, Nat.cast_add, Nat.cast_one]
      rw [hfail] at hnext ⊢
      have hslack : (1 : ℚ) ≤ b.slack := by exact_mod_cast b.one_le_slack
      rcases (b.look a.now).recordFailure_cases a.later with ⟨-, heq⟩ | ⟨hbelow, heq⟩
      · -- it is open now, so the next probe is a timeout away from this failure
        have hprobes := hnext.1 (by rw [heq]) (by rw [heq])
        rw [show ((b.look a.now).recordFailure a.later).openedAt = a.later by rw [heq]] at hprobes
        constructor
        · intro hopen hopened
          have helapsed : b.resetTimeout ≤ a.now - b.openedAt := by
            by_contra hlt
            have hrefused := (b.allows_iff a.now).2 ⟨hopen, not_le.1 hlt⟩
            rw [hallowed] at hrefused
            cases hrefused
          linarith
        · nlinarith
      · rw [hfailures, hthreshold] at hbelow
        have hclosed : b.state ≠ .opened := fun hopen => by
          have hmany := (h.opened.1 hopen).2
          rw [← h.failures] at hmany
          omega
        refine ⟨fun hopen => absurd hopen hclosed, ?_⟩
        have hless : b.slack = ((b.look a.now).recordFailure a.later).slack + 1 := by
          have hlook : (b.look a.now).state ≠ .opened := by simp [look, hclosed]
          rw [heq]
          simp only [slack, hclosed, hlook, if_false, hthreshold, hfailures]
          omega
        have hrate := hnext.2
        rw [hless, Int.cast_add, Int.cast_one]
        linarith

/-- While a dependency is dead it is called at most as often as the threshold says, and once more for
every timeout that passes. -/
theorem outage_bounded (failureThreshold : ℤ) {resetTimeout : ℚ} (hreset : 0 < resetTimeout) (history : List Attempt)
    {outage : List Attempt} (hfails : ∀ a ∈ outage, a.fails = true) {start stop : ℚ} (hclock : Between start stop outage) :
    let b : CircuitBreaker := { failureThreshold := failureThreshold, resetTimeout := resetTimeout }
    (((b.after history).admitted outage).length : ℚ) ≤ max 1 failureThreshold + (stop - start) / resetTimeout := by
  intro b
  have h : (b.after history).Tracks (b.admitted history) := (tracks_new failureThreshold resetTimeout).after history
  obtain ⟨hthreshold, htimeout⟩ : (b.after history).failureThreshold = failureThreshold ∧
      (b.after history).resetTimeout = resetTimeout := b.after_settings history
  have hbound := (admitted_outage outage h (htimeout ▸ hreset.le) hfails hclock).2
  have hslack : ((b.after history).slack : ℚ) ≤ max 1 failureThreshold := by
    have hint : (b.after history).slack ≤ max 1 failureThreshold := by
      have hfailures := h.failures
      unfold slack
      split
      · exact le_max_left ..
      · rw [hthreshold]
        omega
    exact_mod_cast hint
  rw [htimeout] at hbound
  rw [← sub_le_iff_le_add', le_div_iff₀ hreset]
  nlinarith

/-- Five calls within twenty seconds, three of which reach the dependency. -/
theorem outage_bounded_five :
    (((({ failureThreshold := 2, resetTimeout := 10 } : CircuitBreaker).after []).admitted
      [⟨0, 1, true⟩, ⟨2, 3, true⟩, ⟨4, 4, true⟩, ⟨13, 14, true⟩, ⟨20, 20, true⟩]).length : ℚ) ≤
        max 1 (2 : ℤ) + (20 - 0) / 10 :=
  outage_bounded 2 (by norm_num) [] (by simp) (by norm_num [Between])

end CircuitBreaker

end LogAnalytics
