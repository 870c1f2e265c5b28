import Mathlib.Algebra.Order.Ring.Rat
import Mathlib.Data.List.Range
import Mathlib.Tactic.NormNum
import LogAnalytics.Exn
/-!
# Retries

`call_with_retry` and `call_with_retry_async`, each as its own loop over what the operation does from
call to call, numbered from 1. Both ask the policy for a delay; `time.sleep` refuses a negative one,
`asyncio.sleep` does not wait for it.
-/

namespace LogAnalytics.Retry

variable {C E α : Type}

/-- `RetryPolicy`, as `__post_init__` lets it pass. -/
structure RetryPolicy (C : Type) where
  attempts : Nat := 3
  baseDelay : ℚ := 1 / 2
  maxDelay : ℚ := 30
  multiplier : ℚ := 2
  jitter : Bool := true
  retryOn : List C
  attempts_pos : 1 ≤ attempts
  baseDelay_pos : 0 < baseDelay
  maxDelay_pos : 0 < maxDelay

/-- What the loops ask of the runtime. -/
structure Runtime (C E : Type) where
  /-- The classes an exception is an instance of. -/
  classes : E → List C
  /-- `type(exc).__name__` -/
  typeName : E → String
  /-- `multiplier ** n`; a float can overflow. -/
  power : ℚ → Nat → Except Exn ℚ
  /-- `random.uniform(0.0, raw)`, as drawn after the `k`th failure. -/
  uniform : Nat → ℚ → ℚ

namespace RetryPolicy

variable (rt : Runtime C E) (policy : RetryPolicy C)

/-- `delay_for` -/
def delayFor (attempt : Nat) : Except Exn ℚ := do
  let raw := min (policy.baseDelay * (← rt.power policy.multiplier (attempt - 1))) policy.maxDelay
  return if policy.jitter then rt.uniform attempt raw else raw

/-- `should_retry` -/
def shouldRetry [DecidableEq C] (exc : E) : Bool := (rt.classes exc).any (· ∈ policy.retryOn)

end RetryPolicy

/-- `time.sleep` -/
def timeSleep (delay : ℚ) : Except Exn Unit :=
  if delay < 0 then .error ⟨.valueError, "sleep length must be non-negative"⟩ else .ok ()

structure RetryExhausted (E : Type) where
  message : String
  attempts : Nat
  errorType : Option String
  cause : Option E

inductive Ending (E α : Type) where
  | returned (value : α)
  /-- By the bare `raise`. -/
  | reraised (exc : E)
  | exhausted (error : RetryExhausted E)
  /-- From the handler itself. -/
  | escaped (exn : Exn)

/-- The calls of the operation, the delays asked of `sleep` and how it ends. -/
structure Run (E α : Type) where
  calls : Nat
  delays : List ℚ
  ending : Ending E α

namespace Run

def stop (ending : Ending E α) : Run E α := ⟨0, [], ending⟩

def called (r : Run E α) : Run E α := { r with calls := r.calls + 1 }

def slept (delay : ℚ) (r : Run E α) : Run E α := { r with delays := delay :: r.delays }

end Run

section Loops
variable [DecidableEq C] (rt : Runtime C E) (policy : RetryPolicy C) (description : String)
variable (outcomes : Nat → Except E α)

/-- The `raise` at the end of `call_with_retry`. -/
def giveUp (last : Option E) : Run E α :=
  .stop (.exhausted {
    message := description ++ " failed after " ++ toString policy.attempts ++ " attempts"
    attempts := policy.attempts
    errorType := last.map rt.typeName
    cause := last })

/-- The loop of `call_with_retry` from `attempt` on, with what `on_retry` raises. -/
def callLoop (onRetry : Option (Nat → E → ℚ → Option E)) : Nat → Nat → Option E → Run E α
  | 0, _, last => giveUp rt policy description last
  | left + 1, attempt, _ => .called <|
    match outcomes attempt with
    | .ok value => .stop (.returned value)
    | .error exc =>
      if !policy.shouldRetry rt exc || attempt = policy.attempts then
        if !policy.shouldRetry rt exc then .stop (.reraised exc)
        else giveUp rt policy description (some exc)
      else
        match policy.delayFor rt attempt with
        | .error exn => .stop (.escaped exn)
        | .ok delay =>
          match onRetry.bind fun hook => hook attempt exc delay with
          | some raised => .stop (.reraised raised)
          | none => .slept delay <|
            match timeSleep delay with
            | .error exn => .stop (.escaped exn)
            | .ok () => callLoop onRetry left (attempt + 1) (some exc)

def callWithRetry (onRetry : Option (Nat → E → ℚ → Option E)) : Run E α :=
  callLoop rt policy description outcomes onRetry policy.attempts 1 none

/-- The call fails in a way the policy retries. -/
def Retryable (attempt : Nat) : Prop := ∃ exc, outcomes attempt = .error exc ∧ policy.shouldRetry rt exc = true

/-- What the last call comes to. -/
def EndsWith (attempt : Nat) (ending : Ending E α) : Prop :=
  match outcomes attempt with
  | .ok value => ending = .returned value
  | .error exc =>
    if policy.shouldRetry rt exc then
      attempt = policy.attempts ∧ ∃ error, ending = .exhausted error ∧ error.cause = some exc
    else ending = .reraised exc

/-- The calls from the attempt `first` on: each but the last fails in a way that is retried, after
the delay the policy gives, and the last one settles how it ends. -/
structure Retried (first : Nat) (r : Run E α) : Prop where
  called : 1 ≤ r.calls
  bounded : first + (r.calls - 1) ≤ policy.attempts
  earlier : ∀ k, first ≤ k → k < first + (r.calls - 1) → Retryable rt policy outcomes k
  delays : r.delays.map .ok = (List.range' first (r.calls - 1)).map (policy.delayFor rt)
  ended : EndsWith rt policy outcomes (first + (r.calls - 1)) r.ending

/-- Every delay that is asked for, from the attempt `first` on, is a number and not negative. -/
def DelaysFrom (first : Nat) : Prop :=
  ∀ k, first ≤ k → k < policy.attempts → (∀ j, first ≤ j → j ≤ k → Retryable rt policy outcomes j) →
    ∃ delay, policy.delayFor rt k = .ok delay ∧ 0 ≤ delay

end Loops

/-- Without the `error_type`, which only `call_with_retry` notes. -/
def Ending.plain : Ending E α → Ending E α
  | exhausted error => exhausted { error with errorType := none }
  | ending => ending

structure Agree (r r' : Run E α) : Prop where
  calls : r.calls = r'.calls
  delays : r.delays = r'.delays
  ending : r.ending.plain = r'.ending.plain

theorem Agree.called {r r' : Run E α} (h : Agree r r') : Agree r.called r'.called :=
  ⟨congrArg (· + 1) h.calls, h.delays, h.ending⟩

theorem Agree.slept {r r' : Run E α} (h : Agree r r') (delay : ℚ) : Agree (r.slept delay) (r'.slept delay) :=
  ⟨h.calls, congrArg (delay :: ·) h.delays, h.ending⟩

section Loops
variable [DecidableEq C] {rt : Runtime C E} {policy : RetryPolicy C} {outcomes : Nat → Except E α} {attempt : Nat}

theorem Retried.last {ending : Ending E α} (hbound : attempt ≤ policy.attempts)
    (h : EndsWith rt policy outcomes attempt ending) : Retried rt policy outcomes attempt (.called (.stop ending)) where
  called := le_rfl
  bounded := hbound
  earlier := fun _ hk hk' => absurd hk' (not_lt.2 hk)
  delays := rfl
  ended := h

theorem Retried.next {r : Run E α} {delay : ℚ} (hretry : Retryable rt policy outcomes attempt)
    (hdelay : policy.delayFor rt attempt = .ok delay) (h : Retried rt policy outcomes (attempt + 1) r) :
    Retried rt policy outcomes attempt (.called (.slept delay r)) := by
  obtain ⟨n, hn⟩ : ∃ n, r.calls = n + 1 := ⟨r.calls - 1, by have := h.called; omega⟩
  have hlast : attempt + ((r.slept delay).called.calls - 1) = attempt + 1 + (r.calls - 1) := by
    simp only [Run.called, Run.slept]
    omega
  refine ⟨Nat.le_add_left _ _, hlast ▸ h.bounded, fun k hk hk' => ?_, ?_, hlast ▸ h.ended⟩
  · rcases hk.eq_or_lt with rfl | hk
    · exact hretry
    · exact h.earlier k hk (hlast ▸ hk')
  · have hrest := h.delays
    simp only [Run.called, Run.slept, List.map_cons, Nat.add_sub_cancel, hn] at hrest ⊢
    rw [List.range'_succ, List.map_cons, hrest, hdelay]

theorem DelaysFrom.first (h : DelaysFrom rt policy outcomes attempt) (hbound : attempt < policy.attempts)
    (hretry : Retryable rt policy outcomes attempt) : ∃ delay, policy.delayFor rt attempt = .ok delay ∧ 0 ≤ delay :=
  h attempt le_rfl hbound fun j hj hj' => by rwa [le_antisymm hj' hj]

theorem DelaysFrom.next (h : DelaysFrom rt policy outcomes attempt) (hretry : Retryable rt policy outcomes attempt) :
    DelaysFrom rt policy outcomes (attempt + 1) := by
  intro k hk hbound hall
  refine h k (by omega) hbound fun j hj hj' => ?_
  rcases hj.eq_or_lt with rfl | hj
  · exact hretry
  · exact hall j hj hj'

variable (description : String)

/-- A hook that returns makes no difference. -/
theorem callWithRetry_hook {hook : Nat → E → ℚ → Option E} (hquiet : ∀ attempt exc delay, hook attempt exc delay = none) :
    callWithRetry rt policy description outcomes (some hook) = callWithRetry rt policy description outcomes none := by
  suffices h : ∀ left attempt last, callLoop rt policy description outcomes (some hook) left attempt last =
      callLoop rt policy description outcomes none left attempt last from h _ _ _
  intro left
  induction left with
  | zero => intro _ _; rfl
  | succ left ih =>
    intro attempt last
    simp only [callLoop, Option.bind_some, Option.bind_none, hquiet, ih]

end Loops

/-- Any other multiplier gives delays that can be slept. -/
theorem delayFor_nonneg [DecidableEq C] {rt : Runtime C E} {policy : RetryPolicy C} {attempt : Nat} {delay : ℚ}
    (hpower : ∀ n x, rt.power policy.multiplier n = .ok x → x = policy.multiplier ^ n)
    (huniform : ∀ raw, 0 ≤ raw → 0 ≤ rt.uniform attempt raw) (hmultiplier : 0 ≤ policy.multiplier)
    (h : policy.delayFor rt attempt = .ok delay) : 0 ≤ delay := by
  unfold RetryPolicy.delayFor at h
  cases hfactor : rt.power policy.multiplier (attempt - 1) with
  | error exn => rw [hfactor] at h; cases h
  | ok factor =>
    have hraw : 0 ≤ min (policy.baseDelay * factor) policy.maxDelay := by
      rw [hpower _ _ hfactor]
      exact le_min (mul_nonneg policy.baseDelay_pos.le (pow_nonneg hmultiplier _)) policy.maxDelay_pos.le
    rw [hfactor] at h
    cases h
    split
    · exact huniform _ hraw
    · exact hraw

end LogAnalytics.Retry
