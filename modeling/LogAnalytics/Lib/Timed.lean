import Mathlib.Order.Lattice
import LogAnalytics.Lib.Runs
/-!
# Runs against a clock

A step function that is told the time, and inputs that carry theirs: the clock of a run never goes
back, and every observation is stamped with the reading it was made at.
-/

namespace LogAnalytics.Lib

variable {τ σ ι ο : Type*} [LinearOrder τ]

structure Timed (τ σ : Type*) where
  clock : τ
  state : σ

/-- An input that is older than the clock is not possible. -/
def timed (step : τ → σ → ι → Option (σ × List ο)) (s : Timed τ σ) (x : τ × ι) : Option (Timed τ σ × List (τ × ο)) :=
  if x.1 < s.clock then none
  else (step x.1 s.state x.2).map fun r => (⟨x.1, r.1⟩, r.2.map (Prod.mk x.1))

variable {step : τ → σ → ι → Option (σ × List ο)}

theorem timed_some {s s' : Timed τ σ} {t : τ} {x : ι} {o : List (τ × ο)} (h : timed step s (t, x) = some (s', o)) :
    s.clock ≤ t ∧ s'.clock = t ∧ ∃ o', step t s.state x = some (s'.state, o') ∧ o = o'.map (Prod.mk t) := by
  simp only [timed, Option.ite_none_left_eq_some, not_lt, Option.map_eq_some_iff, Prod.mk.injEq] at h
  obtain ⟨hle, ⟨r, o'⟩, hr, rfl, rfl⟩ := h
  exact ⟨hle, rfl, o', hr, rfl⟩

/-- What has been observed is not from the future. -/
theorem timed_stamps {s s' : Timed τ σ} {x : τ × ι} {tr o : List (τ × ο)} (h : timed step s x = some (s', o))
    (htr : ∀ e ∈ tr, e.1 ≤ s.clock) : ∀ e ∈ tr ++ o, e.1 ≤ s'.clock := by
  obtain ⟨hle, hclock, o', -, rfl⟩ := timed_some h
  rw [hclock]
  intro e he
  rcases List.mem_append.1 he with he | he
  · exact (htr e he).trans hle
  · obtain ⟨_, -, rfl⟩ := List.mem_map.1 he
    exact le_rfl

end LogAnalytics.Lib
