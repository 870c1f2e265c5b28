import Mathlib.Data.Rat.Defs
import Mathlib.Algebra.Order.Ring.Rat
import Mathlib.Data.List.TakeWhile
import Mathlib.Logic.Function.Basic
import LogAnalytics.Lib.Runs
/-!
# The circuit breaker

`CircuitBreaker` as a step relation over the threads that call `allows`, `record_success` and
`record_failure` on one breaker. It has no lock, so a step is one read or write of its fields.
An outcome is recorded when it takes effect: when the state is set, or when `record_failure` finds
the threshold not reached.
-/
open LogAnalytics.Lib

namespace LogAnalytics

inductive BreakerState where
  | closed | opened | halfOpen
  deriving DecidableEq

structure CircuitBreaker where
  failureThreshold : ℤ := 5
  resetTimeout : ℚ := 30
  failures : ℤ := 0
  openedAt : ℚ := 0
  state : BreakerState := .closed

namespace CircuitBreaker

/-- The number of a call. -/
abbrev CallId := Nat

/-- How far a call is. -/
inductive Progress where
  /-- `allows` is about to look at `_state`. -/
  | asked
  /-- It has read `"open"`. -/
  | wasOpen
  /-- It has found the timeout elapsed and is about to set the state. -/
  | elapsed
  /-- It is about to read the state it answers with; `moved` when it has itself just taken the
  state to `"half_open"`. -/
  | settled (moved : Bool)
  | answered (allowed : Bool)
  /-- `record_success` is about to reset the failures. -/
  | succeeding
  | reset
  /-- `record_failure` is about to read the failures. -/
  | failing
  | read (failures : ℤ)
  | counted
  /-- It has found the threshold reached. -/
  | tripping
  /-- It has set the state and not yet the time. -/
  | tripped
  | recorded
  deriving DecidableEq

inductive Event where
  | halfOpened
  | admitted (i : CallId)
  | refused (i : CallId)
  | recorded (i : CallId)
  deriving DecidableEq

/-- The next read or write of call `i`, with what the clock shows. -/
def advance (b : CircuitBreaker) (i : CallId) (now : ℚ) : Progress → Option (CircuitBreaker × Progress × List Event)
  | .asked => some (b, if b.state = .opened then .wasOpen else .settled false, [])
  | .wasOpen => some (b, if b.resetTimeout ≤ now - b.openedAt then .elapsed else .settled false, [])
  | .elapsed =>
    if b.state = .halfOpen then some (b, .settled false, [])
    else some ({ b with state := .halfOpen }, .settled true, [.halfOpened])
  | .settled _ =>
    if b.state = .opened then some (b, .answered false, [.refused i]) else some (b, .answered true, [.admitted i])
  | .succeeding => some ({ b with failures := 0 }, .reset, [])
  | .reset => some ({ b with state := .closed }, .recorded, [.recorded i])
  | .failing => some (b, .read b.failures, [])
  | .read failures => some ({ b with failures := failures + 1 }, .counted, [])
  | .counted =>
    if b.failureThreshold ≤ b.failures then some (b, .tripping, []) else some (b, .recorded, [.recorded i])
  | .tripping => some ({ b with state := .opened }, .tripped, [.recorded i])
  | .tripped => some ({ b with openedAt := now }, .recorded, [])
  | .answered _ | .recorded => none

/-- The breaker and the calls on it. -/
structure Shared where
  breaker : CircuitBreaker := {}
  call : CallId → Option Progress := fun _ => none

inductive Step where
  | allows (i : CallId)
  | recordSuccess (i : CallId)
  | recordFailure (i : CallId)
  /-- The next step of a call. -/
  | next (i : CallId) (now : ℚ)

namespace Shared

def enter (s : Shared) (i : CallId) (p : Progress) : Option (Shared × List Event) :=
  match s.call i with
  | none => some ({ s with call := Function.update s.call i (some p) }, [])
  | some _ => none

def step (s : Shared) : Step → Option (Shared × List Event)
  | .allows i => s.enter i .asked
  | .recordSuccess i => s.enter i .succeeding
  | .recordFailure i => s.enter i .failing
  | .next i now =>
    match s.call i with
    | none => none
    | some p =>
      (s.breaker.advance i now p).map fun r => (⟨r.1, Function.update s.call i (some r.2.1)⟩, r.2.2)

end Shared

/-! ## One probe -/

def Event.isAdmitted : Event → Bool
  | .admitted _ => true
  | _ => false

def Event.isRecorded : Event → Bool
  | .recorded _ => true
  | _ => false

/-- What follows up to the next recorded outcome. -/
def untilRecorded (later : List Event) : List Event := later.takeWhile fun e => !e.isRecorded

/-- From the moment the state becomes `half_open` to the next outcome at most one call is admitted. -/
def OneProbe (tr : List Event) : Prop :=
  ∀ before later, tr = before ++ .halfOpened :: later → (untilRecorded later).countP Event.isAdmitted ≤ 1

/-! ## What a step shows -/

theorem grown {tr before later : List Event} {e : Event} (h : tr ++ [e] = before ++ .halfOpened :: later) :
    later = [] ∨ ∃ l, later = l ++ [e] ∧ tr = before ++ .halfOpened :: l := by
  rcases List.eq_nil_or_concat later with rfl | ⟨l, x, rfl⟩
  · exact .inl rfl
  · rw [List.concat_eq_append, ← List.cons_append, ← List.append_assoc, List.append_singleton_inj] at h
    exact .inr ⟨l, by rw [h.2, List.concat_eq_append], h.1⟩

theorem untilRecorded_unrecorded {l : List Event} (h : ∀ e ∈ l, e.isRecorded = false) (later : List Event) :
    untilRecorded (l ++ later) = l ++ untilRecorded later :=
  List.takeWhile_append_of_pos fun e he => by rw [h e he]; rfl

theorem untilRecorded_recorded {l : List Event} {e : Event} (he : e ∈ l) (hrec : e.isRecorded = true) (later : List Event) :
    untilRecorded (l ++ later) = untilRecorded l := by
  unfold untilRecorded
  rw [List.takeWhile_append, if_neg]
  intro hlen
  rw [← (List.takeWhile_prefix _).eq_of_length hlen] at he
  simpa [hrec] using List.mem_takeWhile_imp he

theorem OneProbe.snoc {tr : List Event} {e : Event} (h : OneProbe tr)
    (hpast : e.isAdmitted = true → ∀ before later, tr = before ++ .halfOpened :: later →
      (∀ x ∈ later, x.isRecorded = false) → later.countP Event.isAdmitted = 0) : OneProbe (tr ++ [e]) := by
  intro before later hlater
  rcases grown hlater with rfl | ⟨l, rfl, htr⟩
  · exact Nat.zero_le 1
  · by_cases hrec : ∀ x ∈ l, x.isRecorded = false
    · have hone := h before l htr
      rw [← l.append_nil, untilRecorded_unrecorded hrec] at hone
      rw [untilRecorded_unrecorded hrec, List.countP_append]
      have hlast : (untilRecorded [e]).countP Event.isAdmitted ≤ [e].countP Event.isAdmitted :=
        (List.takeWhile_sublist _).countP_le
      by_cases he : e.isAdmitted = true
      · have hnone := hpast he before l htr hrec
        rw [List.countP_singleton, if_pos he] at hlast
        omega
      · rw [List.countP_singleton, if_neg he] at hlast
        rw [List.countP_append] at hone
        omega
    · simp only [not_forall, Bool.not_eq_false] at hrec
      obtain ⟨x, hx, hrec⟩ := hrec
      rw [untilRecorded_recorded hx hrec]
      exact h before l htr

/-- What the next step of a call does to the state, and what it shows. -/
theorem advance_spec {b b' : CircuitBreaker} {i : CallId} {now : ℚ} {p p' : Progress} {o : List Event}
    (h : b.advance i now p = some (b', p', o)) :
    (o = [] ∧ b'.state = b.state ∧ p' ≠ .settled true) ∨
      (o = [.halfOpened] ∧ b.state ≠ .halfOpen ∧ b'.state = .halfOpen) ∨
      (∃ moved, p = .settled moved ∧ o = [.admitted i] ∧ b'.state = b.state ∧ p' = .answered true) ∨
      (o = [.refused i] ∧ b'.state = b.state ∧ p' ≠ .settled true) ∨ o = [.recorded i] := by
  cases p with
  | asked =>
    cases h
    refine .inl ⟨rfl, rfl, ?_⟩
    split <;> simp
  | wasOpen =>
    cases h
    refine .inl ⟨rfl, rfl, ?_⟩
    split <;> simp
  | elapsed =>
    simp only [advance] at h
    split at h
    · cases h
      exact .inl ⟨rfl, rfl, by simp⟩
    · next hstate =>
      cases h
      exact .inr (.inl ⟨rfl, hstate, rfl⟩)
  | settled moved =>
    simp only [advance] at h
    split at h
    · cases h
      exact .inr (.inr (.inr (.inl ⟨rfl, rfl, by simp⟩)))
    · cases h
      exact .inr (.inr (.inl ⟨moved, rfl, rfl, rfl, rfl⟩))
  | succeeding =>
    cases h
    exact .inl ⟨rfl, rfl, by simp⟩
  | reset =>
    cases h
    exact .inr (.inr (.inr (.inr rfl)))
  | failing =>
    cases h
    exact .inl ⟨rfl, rfl, by simp⟩
  | read failures =>
    cases h
    exact .inl ⟨rfl, rfl, by simp⟩
  | counted =>
    simp only [advance] at h
    split at h
    · cases h
      exact .inl ⟨rfl, rfl, by simp⟩
    · cases h
      exact .inr (.inr (.inr (.inr rfl)))
  | tripping =>
    cases h
    exact .inr (.inr (.inr (.inr rfl)))
  | tripped =>
    cases h
    exact .inl ⟨rfl, rfl, by simp⟩
  | answered allowed => cases h
  | recorded => cases h

/-! ## Runs -/

namespace Shared

/-- A call that finds the state it answers with half open has itself just moved it there, and no
other call stands between moving it and answering. -/
def OwnProbe (s : Shared) : Step → Prop
  | .next i _ => ∀ moved, s.call i = some (.settled moved) → s.breaker.state = .halfOpen →
      ∀ j, s.call j = some (.settled true) ↔ j = i
  | _ => True

structure Inv (s : Shared) (tr : List Event) : Prop where
  one : OneProbe tr
  /-- Without an outcome the state stays half open, and after an admission nobody else has moved it. -/
  probing : ∀ before later, tr = before ++ .halfOpened :: later → (∀ e ∈ later, e.isRecorded = false) →
    s.breaker.state = .halfOpen ∧
      (later.countP Event.isAdmitted = 0 ∨ ∀ j, s.call j ≠ some (.settled true))

variable {s s' : Shared} {tr o : List Event}

theorem Inv.start (b : CircuitBreaker) : Inv { breaker := b } [] where
  one := fun before later h => by simp at h
  probing := fun before later h => by simp at h

/-- After a step of call `i`, a call that has moved the state is another one that had before. -/
theorem moved_of_update {i j : CallId} {p : Progress} (hp : p ≠ .settled true)
    (hj : Function.update s.call i (some p) j = some (.settled true)) : j ≠ i ∧ s.call j = some (.settled true) := by
  by_cases hji : j = i
  · rw [hji, Function.update_self, Option.some.injEq] at hj
    exact absurd hj hp
  · rw [Function.update_of_ne hji] at hj
    exact ⟨hji, hj⟩

/-- A step that leaves the state as it is and admits nobody. -/
theorem Inv.quiet (h : Inv s tr) {b : CircuitBreaker} {i : CallId} {p : Progress} (hp : p ≠ .settled true)
    (hb : b.state = s.breaker.state) : Inv ⟨b, Function.update s.call i (some p)⟩ tr := by
  refine ⟨h.one, fun before later htr hrec => ?_⟩
  obtain ⟨hstate, hmoved⟩ := h.probing before later htr hrec
  exact ⟨hb.trans hstate, hmoved.imp_right fun hmoved j hj => hmoved j (moved_of_update hp hj).2⟩

theorem Inv.snoc (h : Inv s tr) {e : Event} (hpast : e.isAdmitted = false) (hopen : e ≠ .halfOpened) :
    Inv s (tr ++ [e]) := by
  refine ⟨h.one.snoc fun he => ?_, fun before later htr hrec => ?_⟩
  · rw [hpast] at he
    cases he
  rcases grown htr with rfl | ⟨l, rfl, hl⟩
  · exact absurd (List.append_singleton_inj.1 htr).2 hopen
  · obtain ⟨hstate, hmoved⟩ := h.probing before l hl fun x hx => hrec x (List.mem_append_left _ hx)
    refine ⟨hstate, hmoved.imp_left fun hnone => ?_⟩
    rw [List.countP_append, hnone, List.countP_singleton, hpast]
    rfl

theorem Inv.enter (h : Inv s tr) {i : CallId} {p : Progress} (hp : p ≠ .settled true)
    (hs : s.enter i p = some (s', o)) : Inv s' (tr ++ o) := by
  unfold Shared.enter at hs
  split at hs
  · cases hs
    rw [List.append_nil]
    exact h.quiet hp rfl
  · cases hs

theorem Inv.next (h : Inv s tr) {i : CallId} {now : ℚ} (hok : s.OwnProbe (.next i now))
    (hs : s.step (.next i now) = some (s', o)) : Inv s' (tr ++ o) := by
  simp only [step] at hs
  split at hs
  · cases hs
  · next p hi =>
    obtain ⟨⟨b, p', o'⟩, hadv, heq⟩ := Option.map_eq_some_iff.1 hs
    cases heq
    rcases advance_spec hadv with ⟨rfl, hb, hp⟩ | ⟨rfl, hwas, hb⟩ | ⟨moved, rfl, rfl, hb, rfl⟩ | ⟨rfl, hb, hp⟩ | rfl
    · rw [List.append_nil]
      exact h.quiet hp hb
    · -- the state was not half open, so no earlier probe is without an outcome
      refine ⟨h.one.snoc fun he => (by cases he), fun before later htr hrec => ?_⟩
      rcases grown htr with rfl | ⟨l, rfl, hl⟩
      · exact ⟨hb, .inl rfl⟩
      · exact absurd (h.probing before l hl fun x hx => hrec x (List.mem_append_left _ hx)).1 hwas
    · -- in a half-open breaker the call is the one that has moved it, so it is the first to be admitted
      have hnobody (hhalf : s.breaker.state = .halfOpen) (j : CallId) :
          Function.update s.call i (some (.answered true)) j ≠ some (.settled true) := by
        intro hj
        obtain ⟨hji, hmoved⟩ := moved_of_update (by simp) hj
        exact hji ((hok moved hi hhalf j).1 hmoved)
      have hfirst : ∀ before later, tr = before ++ .halfOpened :: later → (∀ x ∈ later, x.isRecorded = false) →
          later.countP Event.isAdmitted = 0 := by
        intro before later htr hrec
        obtain ⟨hhalf, hmoved⟩ := h.probing before later htr hrec
        exact hmoved.resolve_right fun hnone => hnone i ((hok moved hi hhalf i).2 rfl)
      refine ⟨h.one.snoc fun _ => hfirst, fun before later htr hrec => ?_⟩
      rcases grown htr with rfl | ⟨l, rfl, hl⟩
      · cases (List.append_singleton_inj.1 htr).2
      · have hhalf := (h.probing before l hl fun x hx => hrec x (List.mem_append_left _ hx)).1
        exact ⟨hb.trans hhalf, .inr (hnobody hhalf)⟩
    · exact (h.quiet hp hb).snoc rfl (by simp)
    · refine ⟨h.one.snoc fun he => (by cases he), fun before later htr hrec => ?_⟩
      rcases grown htr with rfl | ⟨l, rfl, hl⟩
      · cases (List.append_singleton_inj.1 htr).2
      · cases hrec (.recorded i) (by simp)

theorem Inv.step {x : Step} (h : Inv s tr) (hok : s.OwnProbe x) (hs : s.step x = some (s', o)) : Inv s' (tr ++ o) := by
  cases x with
  | allows i => exact h.enter (by simp) hs
  | recordSuccess i => exact h.enter (by simp) hs
  | recordFailure i => exact h.enter (by simp) hs
  | next i now => exact h.next hok hs

/-- When only the call that has moved the breaker to half open reads it so, every half-open breaker
admits at most one call before the next outcome. -/
theorem one_probe (b : CircuitBreaker) {steps : List Step} (hok : Throughout OwnProbe Shared.step { breaker := b } steps)
    (hrun : runs Shared.step { breaker := b } steps = some (s, tr)) : OneProbe tr :=
  (runs_inv_of OwnProbe Inv (fun _ _ _ _ _ hI hx hs => hI.step hx hs) steps { breaker := b } s [] tr (.start b) hok
    hrun).one

/-! ## Two probes -/

/-- Five failures at once trip the breaker, and half a minute later a call takes it to half open and
is admitted. -/
def probing : List Step :=
  ((List.range 5).flatMap fun i => .recordFailure i :: List.replicate (if i = 4 then 5 else 3) (.next i 0)) ++
    .allows 5 :: List.replicate 4 (.next 5 30)

/-- Another call comes before the first has recorded its outcome. -/
def probingTwice : List Step := probing ++ .allows 6 :: List.replicate 2 (.next 6 30)

theorem probingTwice_run : (runs Shared.step {} probingTwice).map Prod.snd =
    some [.recorded 0, .recorded 1, .recorded 2, .recorded 3, .recorded 4, .halfOpened, .admitted 5, .admitted 6] := by
  decide +kernel

theorem two_probes : ¬ ∀ (b : CircuitBreaker) (steps : List Step) (s : Shared) (tr : List Event),
    runs Shared.step { breaker := b } steps = some (s, tr) → OneProbe tr := by
  intro h
  obtain ⟨⟨s, tr⟩, hrun, rfl⟩ := Option.map_eq_some_iff.1 probingTwice_run
  have hone := h {} probingTwice s _ hrun [.recorded 0, .recorded 1, .recorded 2, .recorded 3, .recorded 4]
    [.admitted 5, .admitted 6] rfl
  exact absurd hone (by decide)

/-- A breaker that trips at once, and the one call that finds the timeout elapsed. -/
def probingOnce : List Step :=
  .recordFailure 0 :: List.replicate 5 (.next 0 0) ++ .allows 1 :: List.replicate 4 (.next 1 30)

theorem probingOnce_run : (runs Shared.step { breaker := { failureThreshold := 1 } } probingOnce).map Prod.snd =
    some [.recorded 0, .halfOpened, .admitted 1] := by
  decide +kernel

theorem step_elapsed {i : CallId} {now : ℚ} (hi : s.call i = some .wasOpen)
    (h : s.breaker.resetTimeout ≤ now - s.breaker.openedAt) :
    s.step (.next i now) = some (⟨s.breaker, Function.update s.call i (some .elapsed)⟩, []) := by
  simp only [step, hi, advance, if_pos h, Option.map_some]

theorem probingOnce_throughout :
    Throughout OwnProbe Shared.step { breaker := { failureThreshold := 1 } } probingOnce := by
  have hnot {s : Shared} {i : CallId} {now : ℚ} {p : Progress} (hi : s.call i = some p)
      (hp : ∀ moved, p ≠ .settled moved) : s.OwnProbe (.next i now) := by
    intro moved hmoved
    rw [hi, Option.some.injEq] at hmoved
    exact absurd hmoved (hp moved)
  refine throughout_cons rfl trivial ?_
  refine throughout_cons rfl (hnot rfl (by simp)) (throughout_cons rfl (hnot rfl (by simp)) ?_)
  refine throughout_cons rfl (hnot rfl (by simp)) (throughout_cons rfl (hnot rfl (by simp)) ?_)
  refine throughout_cons rfl (hnot rfl (by simp)) (throughout_cons rfl trivial ?_)
  refine throughout_cons rfl (hnot rfl (by simp)) ?_
  refine throughout_cons (step_elapsed rfl (by decide +kernel)) (hnot rfl (by simp)) ?_
  refine throughout_cons rfl (hnot rfl (by simp)) (throughout_cons rfl ?_ trivial)
  -- the first call has ended, and the second has just moved the state
  intro moved _ _ j
  by_cases hj : j = 1
  · simp [hj, Function.update]
  · by_cases hj0 : j = 0 <;> simp [hj, hj0, Function.update]

theorem one_probe_once : OneProbe [.recorded 0, .halfOpened, .admitted 1] := by
  obtain ⟨⟨s, tr⟩, hrun, rfl⟩ := Option.map_eq_some_iff.1 probingOnce_run
  exact one_probe _ probingOnce_throughout hrun

end Shared

end CircuitBreaker

end LogAnalytics
