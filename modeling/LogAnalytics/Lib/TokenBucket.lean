import Mathlib.Algebra.Order.Field.Basic
import Mathlib.Tactic.Linarith
import Mathlib.Tactic.Ring
/-!
# Token buckets

A bucket of tokens that fills up continuously. `check` is one request at a time `now`;
`admitted` is what a sequence of requests to one bucket gets. Within a window of `T` seconds a
bucket lets through no more than its capacity and what flows in meanwhile.
-/

namespace LogAnalytics.Lib

structure Bucket (α : Type*) where
  tokens : α
  updatedAt : α

namespace Bucket

variable {α : Type*} [Field α] [LinearOrder α]

/-- The bucket as the request at `now` finds it; there may be none yet. -/
def arrive (rate capacity now : α) : Option (Bucket α) → Bucket α
  | none => ⟨capacity, now⟩
  | some b => ⟨min capacity (b.tokens + (now - b.updatedAt) * rate), now⟩

/-- Take the tokens of one request, if there are enough. -/
def take (cost : α) (b : Bucket α) : Bool × Bucket α :=
  if cost ≤ b.tokens then (true, { b with tokens := b.tokens - cost }) else (false, b)

def check (rate capacity cost now : α) (b : Option (Bucket α)) : Bool × Bucket α :=
  take cost (arrive rate capacity now b)

/-- Which of the requests at these times get through. -/
def admitted (rate capacity cost : α) : Option (Bucket α) → List α → List (α × Bool)
  | _, [] => []
  | b, now :: times =>
    let r := check rate capacity cost now b
    (now, r.1) :: admitted rate capacity cost (some r.2) times

/-- How many requests got through from `t` to `e`. -/
def passed (t e : α) (answers : List (α × Bool)) : Nat :=
  answers.countP fun a => a.2 && decide (t ≤ a.1) && decide (a.1 ≤ e)

variable {rate capacity cost : α}

theorem arrive_le (rate capacity now : α) (b : Option (Bucket α)) : (arrive rate capacity now b).tokens ≤ capacity := by
  cases b with
  | none => exact le_rfl
  | some b => exact min_le_left _ _

theorem take_tokens (b : Bucket α) : (take cost b).2.tokens = b.tokens - (if (take cost b).1 then cost else 0) := by
  unfold take
  split <;> simp

@[simp] theorem take_updatedAt (b : Bucket α) : (take cost b).2.updatedAt = b.updatedAt := by
  unfold take
  split <;> rfl

@[simp] theorem arrive_updatedAt (now : α) (b : Option (Bucket α)) : (arrive rate capacity now b).updatedAt = now := by
  cases b <;> rfl

/-- What flows in while nobody asks. -/
theorem arrive_some_le (rate capacity now : α) (b : Bucket α) :
    (arrive rate capacity now (some b)).tokens ≤ b.tokens + (now - b.updatedAt) * rate := min_le_right _ _

/-! ## What is spent in a window -/

/-- The requests, each with its time and its cost, and which of them get through. -/
def answers (rate capacity : α) : Option (Bucket α) → List (α × α) → List (α × α × Bool)
  | _, [] => []
  | b, (now, cost) :: requests =>
    let r := check rate capacity cost now b
    (now, cost, r.1) :: answers rate capacity (some r.2) requests

/-- What a request costs if it gets through from `t` to `e`. -/
def charge (t e : α) (a : α × α × Bool) : α := if a.2.2 = true ∧ t ≤ a.1 ∧ a.1 ≤ e then a.2.1 else 0

def spent (t e : α) (l : List (α × α × Bool)) : α := (l.map (charge t e)).sum

theorem spent_cons (t e : α) (a : α × α × Bool) (l : List (α × α × Bool)) :
    spent t e (a :: l) = charge t e a + spent t e l := by
  rw [spent, List.map_cons, List.sum_cons, spent]

theorem charge_outside {t e : α} {a : α × α × Bool} (h : a.1 < t ∨ e < a.1) : charge t e a = 0 := by
  refine if_neg ?_
  rintro ⟨-, ht, he⟩
  exact h.elim (fun h => (not_lt.2 ht) h) fun h => (not_lt.2 he) h

theorem charge_le {t e : α} {a : α × α × Bool} (h : 0 ≤ a.2.1) : charge t e a ≤ if a.2.2 then a.2.1 else 0 := by
  unfold charge
  cases a.2.2 with
  | false => simp
  | true =>
    rw [if_pos rfl]
    split
    · exact le_rfl
    · exact h

/-- Nothing is spent in a window that ends before the requests. -/
theorem spent_eq_zero {t e : α} {requests : List (α × α)} (h : ∀ r ∈ requests, e < r.1) :
    ∀ b, spent t e (answers rate capacity b requests) = 0 := by
  induction requests with
  | nil => exact fun _ => rfl
  | cons r requests ih =>
    intro b
    rw [answers, spent_cons, charge_outside (.inr (h r List.mem_cons_self)), zero_add]
    exact ih (fun r hr => h r (List.mem_cons_of_mem _ hr)) _

variable [IsStrictOrderedRing α]

theorem take_nonneg {b : Bucket α} (h : 0 ≤ b.tokens) : 0 ≤ (take cost b).2.tokens := by
  unfold take
  split
  · next hle => exact sub_nonneg.2 hle
  · exact h

theorem arrive_nonneg (hrate : 0 ≤ rate) (hcap : 0 ≤ capacity) {now : α} {b : Bucket α} (hb : 0 ≤ b.tokens)
    (hnow : b.updatedAt ≤ now) : 0 ≤ (arrive rate capacity now (some b)).tokens :=
  le_min hcap (add_nonneg hb (mul_nonneg (sub_nonneg.2 hnow) hrate))

/-- From a bucket as it is, no more is spent up to `e` than is in it and flows in. -/
theorem spent_le_tokens (hrate : 0 ≤ rate) (hcap : 0 ≤ capacity) (t : α) {e : α} (requests : List (α × α)) :
    ∀ b : Bucket α, 0 ≤ b.tokens → b.updatedAt ≤ e → (b.updatedAt :: requests.map Prod.fst).Pairwise (· ≤ ·) →
      (∀ r ∈ requests, 0 ≤ r.2) →
      spent t e (answers rate capacity (some b) requests) ≤ b.tokens + (e - b.updatedAt) * rate := by
  induction requests with
  | nil =>
    intro b hb he _ _
    exact add_nonneg hb (mul_nonneg (sub_nonneg.2 he) hrate)
  | cons r requests ih =>
    obtain ⟨now, cost⟩ := r
    intro b hb he hsorted hcosts
    obtain ⟨hfirst, hrest⟩ := List.pairwise_cons.1 hsorted
    have hcost : 0 ≤ cost := hcosts (now, cost) List.mem_cons_self
    by_cases hnow : now ≤ e
    · have hupd : b.updatedAt ≤ now := hfirst now List.mem_cons_self
      have htok := arrive_nonneg hrate hcap hb hupd
      have h := ih (check rate capacity cost now (some b)).2 (take_nonneg htok)
        (by rw [check, take_updatedAt, arrive_updatedAt]; exact hnow)
        (by rw [check, take_updatedAt, arrive_updatedAt]; exact hrest)
        (fun r hr => hcosts r (List.mem_cons_of_mem _ hr))
      rw [check, take_updatedAt, arrive_updatedAt, take_tokens] at h
      have hin := arrive_some_le rate capacity now b
      have hcharge := charge_le (t := t) (e := e) (a := (now, cost, (check rate capacity cost now (some b)).1)) hcost
      rw [answers, spent_cons]
      simp only [check] at hcharge h ⊢
      calc _ ≤ (if (take cost (arrive rate capacity now (some b))).1 then cost else 0) +
            ((arrive rate capacity now (some b)).tokens -
              (if (take cost (arrive rate capacity now (some b))).1 then cost else 0) + (e - now) * rate) :=
            add_le_add hcharge h
        _ = (arrive rate capacity now (some b)).tokens + (e - now) * rate := by ring
        _ ≤ b.tokens + (e - b.updatedAt) * rate := by linarith
    · have hlate : ∀ r ∈ (now, cost) :: requests, e < r.1 := by
        intro r hr
        rcases List.mem_cons.1 hr with rfl | hr
        · exact not_le.1 hnow
        · exact (not_le.1 hnow).trans_le ((List.pairwise_cons.1 hrest).1 r.1 (List.mem_map_of_mem hr))
      rw [spent_eq_zero hlate]
      exact add_nonneg hb (mul_nonneg (sub_nonneg.2 he) hrate)

/-- What one bucket lets be spent in the `T` seconds from `t`. -/
theorem spent_le (hrate : 0 ≤ rate) (hcap : 0 ≤ capacity) (t : α) {T : α} (hT : 0 ≤ T) (requests : List (α × α)) :
    ∀ b : Option (Bucket α),
      (∀ b', b = some b' → 0 ≤ b'.tokens ∧ (b'.updatedAt :: requests.map Prod.fst).Pairwise (· ≤ ·)) →
      (requests.map Prod.fst).Pairwise (· ≤ ·) → (∀ r ∈ requests, 0 ≤ r.2) →
      spent t (t + T) (answers rate capacity b requests) ≤ capacity + T * rate := by
  induction requests with
  | nil =>
    intro b _ _ _
    exact add_nonneg hcap (mul_nonneg hT hrate)
  | cons r requests ih =>
    obtain ⟨now, cost⟩ := r
    intro b hb hsorted hcosts
    obtain ⟨hfirst, hrest⟩ := List.pairwise_cons.1 hsorted
    have htok : 0 ≤ (arrive rate capacity now b).tokens := by
      cases b with
      | none => exact hcap
      | some b =>
        obtain ⟨h0, hs⟩ := hb b rfl
        exact arrive_nonneg hrate hcap h0 ((List.pairwise_cons.1 hs).1 now List.mem_cons_self)
    have hnext : ((check rate capacity cost now b).2.updatedAt :: requests.map Prod.fst).Pairwise (· ≤ ·) := by
      rw [check, take_updatedAt, arrive_updatedAt]
      exact hsorted
    by_cases hbefore : now < t
    · -- the window has not begun
      rw [answers, spent_cons, charge_outside (.inl hbefore), zero_add]
      exact ih _ (fun b' hb' => by cases hb'; exact ⟨take_nonneg htok, hnext⟩) hrest
        fun r hr => hcosts r (List.mem_cons_of_mem _ hr)
    · rw [not_lt] at hbefore
      by_cases hend : now ≤ t + T
      · -- the first request of the window finds a bucket that is at most full
        have hidem : arrive rate capacity now (some (arrive rate capacity now b)) = arrive rate capacity now b := by
          have hle := arrive_le rate capacity now b
          cases b <;> simp_all [arrive]
        have hsome : answers rate capacity b ((now, cost) :: requests) =
            answers rate capacity (some (arrive rate capacity now b)) ((now, cost) :: requests) := by
          rw [answers, answers, check, check, hidem]
        rw [hsome]
        have h := spent_le_tokens hrate hcap t (e := t + T) ((now, cost) :: requests) (arrive rate capacity now b) htok
          (by rw [arrive_updatedAt]; exact hend)
          (by rw [arrive_updatedAt]; exact List.pairwise_cons.2
                ⟨fun x hx => by rcases List.mem_cons.1 hx with rfl | hx
                                · exact le_rfl
                                · exact hfirst x hx, hsorted⟩) hcosts
        rw [arrive_updatedAt] at h
        have hcapped := arrive_le rate capacity now b
        have hwindow : (t + T - now) * rate ≤ T * rate := mul_le_mul_of_nonneg_right (by linarith) hrate
        linarith
      · have hlate : ∀ r ∈ (now, cost) :: requests, t + T < r.1 := by
          intro r hr
          rcases List.mem_cons.1 hr with rfl | hr
          · exact not_le.1 hend
          · exact (not_le.1 hend).trans_le (hfirst r.1 (List.mem_map_of_mem hr))
        rw [spent_eq_zero hlate]
        exact add_nonneg hcap (mul_nonneg hT hrate)

/-! ## Requests of one cost -/

omit [IsStrictOrderedRing α] in
/-- Requests of one cost spend it as often as one gets through. -/
theorem passed_mul (t e : α) (times : List α) : ∀ b,
    (passed t e (admitted rate capacity cost b times) : α) * cost =
      spent t e (answers rate capacity b (times.map (·, cost))) := by
  induction times with
  | nil => intro b; simp [admitted, passed, answers, spent]
  | cons now times ih =>
    intro b
    rw [List.map_cons, answers, spent_cons, ← ih, admitted, passed, List.countP_cons, ← passed, charge]
    cases (check rate capacity cost now b).1 with
    | false => simp
    | true =>
      by_cases hin : t ≤ now ∧ now ≤ e
      · simp [hin.1, hin.2, add_mul, add_comm]
      · have hout : (decide (t ≤ now) && decide (now ≤ e)) = false := by simpa using hin
        simp [hin, hout]

/-- The requests one bucket lets through in the `T` seconds from `t`. -/
theorem passed_le (hrate : 0 ≤ rate) (hcap : 0 ≤ capacity) (hcost : 0 ≤ cost) (t : α) {T : α} (hT : 0 ≤ T)
    (times : List α) (b : Option (Bucket α))
    (hb : ∀ b', b = some b' → 0 ≤ b'.tokens ∧ (b'.updatedAt :: times).Pairwise (· ≤ ·)) (hsorted : times.Pairwise (· ≤ ·)) :
    passed t (t + T) (admitted rate capacity cost b times) * cost ≤ capacity + T * rate := by
  have htimes : (times.map fun now => (now, cost)).map Prod.fst = times := by
    rw [List.map_map]
    exact List.map_id times
  rw [passed_mul]
  refine spent_le hrate hcap t hT _ b (by rwa [htimes]) (by rwa [htimes]) fun r hr => ?_
  obtain ⟨now, -, rfl⟩ := List.mem_map.1 hr
  exact hcost

/-! ## A second try -/

/-- A request that is refused gets through once the tokens that were missing have flowed in. -/
theorem check_again (hrate : 0 < rate) (hcap : cost ≤ capacity) {now later : α} {b : Option (Bucket α)}
    (hrefused : (check rate capacity cost now b).1 = false)
    (hlater : now + (cost - (arrive rate capacity now b).tokens) / rate ≤ later) :
    (check rate capacity cost later (some (check rate capacity cost now b).2)).1 = true := by
  have hshort : ¬cost ≤ (arrive rate capacity now b).tokens := fun hle => by
    rw [check, take, if_pos hle] at hrefused
    cases hrefused
  have hleft : (check rate capacity cost now b).2 = arrive rate capacity now b := by
    rw [check, take, if_neg hshort]
  have hflow : cost - (arrive rate capacity now b).tokens ≤ (later - now) * rate :=
    (div_le_iff₀ hrate).1 (by linarith)
  rw [hleft, check, take, if_pos]
  rw [arrive, arrive_updatedAt]
  exact le_min hcap (by linarith)

end Bucket

end LogAnalytics.Lib
