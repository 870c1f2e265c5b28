import LogAnalytics.Api.RateLimit
import LogAnalytics.Lib.Assoc
import Mathlib.Data.List.Dedup
/-!
# The limiter over all its keys

`TokenBucketLimiter.check` with the cost of a call. As long as there are no more keys than the
table holds, the calls of one key are a bucket of their own, whatever comes between them; what
holds of a bucket then holds of every key.
-/
open LogAnalytics.Lib

namespace LogAnalytics.Api

/-- A call of `check`, with the clock when the lock is held. -/
structure Call where
  key : Text
  cost : ℚ := 1
  now : ℚ

namespace TokenBucketLimiter

/-- `check(key, cost)` -/
def checkCall (l : TokenBucketLimiter) (c : Call) : Answer × TokenBucketLimiter :=
  let found := l.buckets.lookup c.key
  let bucket := Bucket.arrive l.ratePerSecond l.capacity c.now found
  let r := bucket.take c.cost
  let buckets := match found with
    | none => evict l.maxKeys (l.buckets ++ [(c.key, r.2)])
    | some _ => l.buckets.filter (·.1 ≠ c.key) ++ [(c.key, r.2)]
  let deficit := c.cost - bucket.tokens
  (if r.1 then ⟨true, 0, ⌊r.2.tokens⌋⟩ else ⟨false, if l.ratePerSecond ≠ 0 then deficit / l.ratePerSecond else 60, 0⟩,
    { l with buckets := buckets })

/-- The middleware leaves the cost at one. -/
theorem check_eq_checkCall (l : TokenBucketLimiter) (key : Text) (now : ℚ) :
    l.check key now = l.checkCall { key := key, now := now } := rfl

/-- The calls with their answers, and the limiter after them. -/
def checks : TokenBucketLimiter → List Call → List (Call × Answer) × TokenBucketLimiter
  | l, [] => ([], l)
  | l, c :: calls =>
    let r := l.checkCall c
    let rest := checks r.2 calls
    ((c, r.1) :: rest.1, rest.2)

/-! ## One key -/

/-- The calls of one key, for the bucket. -/
def ofKey (key : Text) (calls : List Call) : List (ℚ × ℚ) :=
  (calls.filter (·.key = key)).map fun c => (c.now, c.cost)

variable {l : TokenBucketLimiter} {c : Call}

/-- The bucket a call leaves for its key. -/
def bucketAfter (l : TokenBucketLimiter) (c : Call) : Bool × Bucket ℚ :=
  Bucket.check l.ratePerSecond l.capacity c.cost c.now (l.buckets.lookup c.key)

theorem checkCall_allowed : (l.checkCall c).1.allowed = (l.bucketAfter c).1 := by
  simp only [checkCall, bucketAfter, Bucket.check]
  split
  · next h => exact h.symm
  · next h => exact ((Bool.not_eq_true _).mp h).symm

/-- The table has a bucket for each of its keys, and room for one for every known key. -/
structure Fits (l : TokenBucketLimiter) (known : List Text) : Prop where
  nodup : (l.buckets.map Prod.fst).Nodup
  subset : ∀ key ∈ l.buckets.map Prod.fst, key ∈ known
  room : known.dedup.length ≤ l.maxKeys

/-- The table after a call, when nothing is dropped. -/
theorem Fits.buckets {known : List Text} (h : l.Fits known) (hc : c.key ∈ known) :
    (l.checkCall c).2.buckets = match l.buckets.lookup c.key with
      | none => l.buckets ++ [(c.key, (l.bucketAfter c).2)]
      | some _ => l.buckets.filter (·.1 ≠ c.key) ++ [(c.key, (l.bucketAfter c).2)] := by
  simp only [checkCall, bucketAfter, Bucket.check]
  cases hfound : l.buckets.lookup c.key with
  | some b => rfl
  | none =>
    have hnew : (c.key :: l.buckets.map Prod.fst).Nodup := List.nodup_cons.2 ⟨lookup_none.1 hfound, h.nodup⟩
    have hsub : c.key :: l.buckets.map Prod.fst ⊆ known.dedup := by
      intro key hkey
      rw [List.mem_dedup]
      rcases List.mem_cons.1 hkey with rfl | hkey
      · exact hc
      · exact h.subset key hkey
    have hlen := (List.subperm_of_subset hnew hsub).length_le
    have hroom := h.room
    rw [List.length_cons, List.length_map] at hlen
    rw [evict, List.length_append, List.length_singleton, Nat.sub_eq_zero_of_le (by omega), List.drop_zero]

/-- A call changes the bucket of its key and no other. -/
theorem Fits.lookup {known : List Text} (h : l.Fits known) (hc : c.key ∈ known) (key : Text) :
    (l.checkCall c).2.buckets.lookup key = if key = c.key then some (l.bucketAfter c).2 else l.buckets.lookup key := by
  rw [h.buckets hc]
  cases hfound : l.buckets.lookup c.key with
  | none => exact lookup_snoc _ _ _ _ hfound
  | some b =>
    simp only
    rw [lookup_snoc _ _ _ _ (by rw [lookup_others, if_pos rfl]), lookup_others]
    split <;> rfl

theorem Fits.checkCall {known : List Text} (h : l.Fits known) (hc : c.key ∈ known) : (l.checkCall c).2.Fits known := by
  have hkeys : (l.checkCall c).2.buckets.map Prod.fst = (l.buckets.map Prod.fst).erase c.key ++ [c.key] := by
    rw [h.buckets hc]
    cases hfound : l.buckets.lookup c.key with
    | none => rw [List.map_append, List.erase_of_not_mem (lookup_none.1 hfound)]; rfl
    | some b => rw [List.map_append, keys_others h.nodup]; rfl
  refine ⟨hkeys ▸ nodup_moved h.nodup c.key, fun key hkey => ?_, h.room⟩
  rcases mem_moved.1 (hkeys ▸ hkey) with hkey | rfl
  · exact h.subset key hkey
  · exact hc

/-- What the calls of one key were answered. -/
def answersOf (key : Text) (answered : List (Call × Answer)) : List (ℚ × ℚ × Bool) :=
  (answered.filter (·.1.key = key)).map fun a => (a.1.now, a.1.cost, a.2.allowed)

/-- The calls of one key are answered by a bucket of their own. -/
theorem Fits.answers {known : List Text} (key : Text) (calls : List Call) : ∀ {l : TokenBucketLimiter}, l.Fits known →
    (∀ c ∈ calls, c.key ∈ known) → answersOf key (l.checks calls).1 =
      Bucket.answers l.ratePerSecond l.capacity (l.buckets.lookup key) (ofKey key calls) := by
  induction calls with
  | nil => exact fun _ _ => rfl
  | cons c calls ih =>
    intro l h hcalls
    have hc := hcalls c List.mem_cons_self
    have hrest := ih (h.checkCall hc) fun c hc => hcalls c (List.mem_cons_of_mem _ hc)
    rw [h.lookup hc] at hrest
    rw [checks, answersOf, ofKey]
    by_cases hkey : c.key = key
    · rw [if_pos hkey.symm] at hrest
      rw [List.filter_cons_of_pos (by simpa using hkey), List.filter_cons_of_pos (by simpa using hkey), List.map_cons,
        List.map_cons, Bucket.answers, checkCall_allowed, bucketAfter, hkey]
      rw [bucketAfter, hkey] at hrest
      exact congrArg _ hrest
    · rw [if_neg (Ne.symm hkey)] at hrest
      rw [List.filter_cons_of_neg (by simpa using hkey), List.filter_cons_of_neg (by simpa using hkey)]
      exact hrest

theorem Fits.checks {known : List Text} (calls : List Call) : ∀ {l : TokenBucketLimiter}, l.Fits known →
    (∀ c ∈ calls, c.key ∈ known) → (l.checks calls).2.Fits known := by
  induction calls with
  | nil => exact fun h _ => h
  | cons c calls ih =>
    exact fun h hcalls => ih (h.checkCall (hcalls c List.mem_cons_self)) fun c hc => hcalls c (List.mem_cons_of_mem _ hc)

/-- Calls of other keys leave the bucket of a key as it is. -/
theorem Fits.lookup_checks {known : List Text} {key : Text} (calls : List Call) : ∀ {l : TokenBucketLimiter}, l.Fits known →
    (∀ c ∈ calls, c.key ∈ known) → (∀ c ∈ calls, c.key ≠ key) →
      (l.checks calls).2.buckets.lookup key = l.buckets.lookup key := by
  induction calls with
  | nil => exact fun _ _ _ => rfl
  | cons c calls ih =>
    intro l h hcalls hother
    have hc := hcalls c List.mem_cons_self
    have hrest := ih (h.checkCall hc) (fun c hc => hcalls c (List.mem_cons_of_mem _ hc))
      fun c hc => hother c (List.mem_cons_of_mem _ hc)
    rw [h.lookup hc, if_neg (Ne.symm (hother c List.mem_cons_self))] at hrest
    exact hrest

/-! ## Every bucket -/

/-- No bucket is overdrawn, over-full, or ahead of the clock. -/
def Sound (l : TokenBucketLimiter) (now : ℚ) : Prop :=
  ∀ e ∈ l.buckets, 0 ≤ e.2.tokens ∧ e.2.tokens ≤ l.capacity ∧ e.2.updatedAt ≤ now

theorem mem_checkCall {e : Text × Bucket ℚ} (h : e ∈ (l.checkCall c).2.buckets) :
    e ∈ l.buckets ∨ e = (c.key, (l.bucketAfter c).2) := by
  simp only [checkCall] at h
  cases hfound : l.buckets.lookup c.key with
  | none =>
    rw [hfound] at h
    have hmem := List.mem_of_mem_drop h
    simpa [bucketAfter, Bucket.check, hfound] using hmem
  | some b =>
    rw [hfound] at h
    rcases List.mem_append.1 h with h | h
    · exact .inl (List.mem_of_mem_filter h)
    · exact .inr (by simpa [bucketAfter, Bucket.check, hfound] using h)

theorem Sound.checkCall (hrate : 0 < l.ratePerSecond) (hcap : 0 < l.capacity) (hcost : 0 < c.cost) {now : ℚ}
    (h : l.Sound now) (hnow : now ≤ c.now) : (l.checkCall c).2.Sound c.now := by
  have harrive : 0 ≤ (Bucket.arrive l.ratePerSecond l.capacity c.now (l.buckets.lookup c.key)).tokens := by
    cases hfound : l.buckets.lookup c.key with
    | none => exact hcap.le
    | some b =>
      obtain ⟨htokens, -, hupdated⟩ := h _ (mem_of_lookup hfound)
      exact Bucket.arrive_nonneg hrate.le hcap.le htokens (hupdated.trans hnow)
  intro e he
  rcases mem_checkCall he with he | rfl
  · obtain ⟨htokens, hfull, hupdated⟩ := h e he
    exact ⟨htokens, hfull, hupdated.trans hnow⟩
  · have hle := Bucket.arrive_le l.ratePerSecond l.capacity c.now (l.buckets.lookup c.key)
    refine ⟨Bucket.take_nonneg harrive, ?_, le_of_eq (by simp [bucketAfter, Bucket.check])⟩
    simp only [bucketAfter, Bucket.check, Bucket.take_tokens]
    change _ ≤ l.capacity
    split <;> linarith

theorem Sound.checks (calls : List Call) : ∀ {l : TokenBucketLimiter} {now : ℚ}, 0 < l.ratePerSecond → 0 < l.capacity →
    (∀ c ∈ calls, 0 < c.cost) → l.Sound now → (∀ c ∈ calls, now ≤ c.now) → calls.Pairwise (·.now ≤ ·.now) →
      ∃ later, (l.checks calls).2.Sound later := by
  induction calls with
  | nil => exact fun _ _ _ h _ _ => ⟨_, h⟩
  | cons c calls ih =>
    intro l now hrate hcap hcosts h hnow hclock
    obtain ⟨hfirst, hrest⟩ := List.pairwise_cons.1 hclock
    have hstep := h.checkCall hrate hcap (hcosts c List.mem_cons_self) (hnow c List.mem_cons_self)
    exact ih hrate hcap (fun c hc => hcosts c (List.mem_cons_of_mem _ hc)) hstep hfirst hrest

@[simp] theorem checks_calls (calls : List Call) : ∀ l : TokenBucketLimiter, (l.checks calls).1.map Prod.fst = calls := by
  induction calls with
  | nil => exact fun _ => rfl
  | cons c calls ih => exact fun l => congrArg (c :: ·) (ih (l.checkCall c).2)

theorem checks_append (before after : List Call) : ∀ l : TokenBucketLimiter,
    (l.checks (before ++ after)).2 = ((l.checks before).2.checks after).2 := by
  induction before with
  | nil => exact fun _ => rfl
  | cons c before ih => exact fun l => ih (l.checkCall c).2

theorem checks_params (calls : List Call) : ∀ l : TokenBucketLimiter, (l.checks calls).2.ratePerSecond = l.ratePerSecond ∧
    (l.checks calls).2.capacity = l.capacity := by
  induction calls with
  | nil => exact fun _ => ⟨rfl, rfl⟩
  | cons c calls ih => exact fun l => ih (l.checkCall c).2

/-! ## One key in a window -/

/-- The calls for one token under a key that are admitted from `t` to `e`. -/
def admissions (key : Text) (t e : ℚ) (answered : List (Call × Answer)) : Nat :=
  answered.countP fun a => a.1.key = key && a.1.cost = 1 && a.2.allowed && t ≤ a.1.now && a.1.now ≤ e

/-- Each of them has spent its token. -/
theorem admissions_le_spent (key : Text) (t e : ℚ) {answered : List (Call × Answer)} (hcosts : ∀ a ∈ answered, 0 < a.1.cost) :
    (admissions key t e answered : ℚ) ≤ Bucket.spent t e (answersOf key answered) := by
  induction answered with
  | nil => exact le_rfl
  | cons a answered ih =>
    have hrest := ih fun a ha => hcosts a (List.mem_cons_of_mem _ ha)
    have hcost := hcosts a List.mem_cons_self
    rw [admissions, List.countP_cons, ← admissions, answersOf]
    by_cases hkey : a.1.key = key
    · rw [List.filter_cons_of_pos (by simpa using hkey), List.map_cons, Bucket.spent_cons, Bucket.charge, ← answersOf]
      by_cases hin : a.2.allowed = true ∧ t ≤ a.1.now ∧ a.1.now ≤ e
      · rw [if_pos hin]
        by_cases hone : a.1.cost = 1
        · rw [if_pos (by simp [hkey, hone, hin.1, hin.2.1, hin.2.2]), hone]
          push_cast
          linarith
        · rw [if_neg (by simp [hone]), add_zero]
          linarith
      · have hout : ¬(a.1.key = key && a.1.cost = 1 && a.2.allowed && t ≤ a.1.now && a.1.now ≤ e) = true := by
          simpa [and_assoc] using fun _ _ ha ht => lt_of_not_ge fun he => hin ⟨ha, ht, he⟩
        rw [if_neg hin, if_neg hout, add_zero, zero_add]
        exact hrest
    · rw [List.filter_cons_of_neg (by simpa using hkey), ← answersOf]
      simpa [hkey] using hrest

/-! ## A second try -/

theorem checkCall_retryAfter (hrate : l.ratePerSecond ≠ 0) (hrefused : (l.checkCall c).1.allowed = false) :
    (l.checkCall c).1.retryAfter =
      (c.cost - (Bucket.arrive l.ratePerSecond l.capacity c.now (l.buckets.lookup c.key)).tokens) / l.ratePerSecond := by
  rw [checkCall_allowed, bucketAfter, Bucket.check] at hrefused
  simp only [checkCall, hrefused, Bool.false_eq_true, if_false, if_pos hrate]

/-- A call that is refused is admitted when it comes again after `retry_after`. -/
theorem Fits.again {known : List Text} (h : l.Fits known) (hc : c.key ∈ known) (hrate : 0 < l.ratePerSecond)
    (hcost : c.cost ≤ l.capacity) {mid : List Call} (hmid : ∀ d ∈ mid, d.key ∈ known ∧ d.key ≠ c.key)
    (hrefused : (l.checkCall c).1.allowed = false) {later : ℚ} (hlater : c.now + (l.checkCall c).1.retryAfter ≤ later) :
    (((l.checkCall c).2.checks mid).2.checkCall { c with now := later }).1.allowed = true := by
  have hbucket : ((l.checkCall c).2.checks mid).2.buckets.lookup c.key = some (l.bucketAfter c).2 := by
    rw [(h.checkCall hc).lookup_checks mid (fun d hd => (hmid d hd).1) fun d hd => (hmid d hd).2, h.lookup hc, if_pos rfl]
  obtain ⟨hrates, hcaps⟩ := checks_params mid (l.checkCall c).2
  rw [checkCall_retryAfter hrate.ne' hrefused] at hlater
  rw [checkCall_allowed] at hrefused ⊢
  rw [bucketAfter, hrates, hcaps, hbucket]
  exact Bucket.check_again hrate hcost hrefused hlater

end TokenBucketLimiter

open TokenBucketLimiter in
/-- The limiter, from an empty table and with no more keys than it holds: the bounds of every
bucket after every call, what one key gets in a window, and when to come again. -/
theorem limiter_bounds {rate capacity : ℚ} {maxKeys : Nat} (hrate : 0 < rate) (hcap : 0 < capacity) {calls : List Call}
    (hcosts : ∀ c ∈ calls, 0 < c.cost ∧ c.cost ≤ capacity) (hclock : calls.Pairwise (·.now ≤ ·.now))
    (hkeys : (calls.map (·.key)).dedup.length ≤ maxKeys) :
    let l : TokenBucketLimiter := { ratePerSecond := rate, capacity := capacity, maxKeys := maxKeys }
    (∀ before after, calls = before ++ after → ∀ e ∈ (l.checks before).2.buckets,
      0 ≤ e.2.tokens ∧ e.2.tokens ≤ capacity) ∧
    (∀ key t T, 0 ≤ T → (admissions key t (t + T) (l.checks calls).1 : ℚ) ≤ capacity + rate * T) ∧
    ∀ before c mid again after, calls = before ++ c :: mid ++ again :: after → again.key = c.key → again.cost = c.cost →
      (∀ d ∈ mid, d.key ≠ c.key) → ((l.checks before).2.checkCall c).1.allowed = false →
      c.now + ((l.checks before).2.checkCall c).1.retryAfter ≤ again.now →
      ((l.checks (before ++ c :: mid)).2.checkCall again).1.allowed = true := by
  intro l
  have hfits : l.Fits (calls.map (·.key)) := ⟨List.nodup_nil, fun _ h => absurd h List.not_mem_nil, hkeys⟩
  have hknown : ∀ c ∈ calls, c.key ∈ calls.map (·.key) := fun c hc => List.mem_map_of_mem hc
  refine ⟨?_, ?_, ?_⟩
  · rintro before after rfl e he
    have hsound : ∃ now, l.Sound now ∧ ∀ c ∈ before, now ≤ c.now := by
      cases before with
      | nil => exact ⟨0, fun _ h => absurd h List.not_mem_nil, fun _ h => absurd h List.not_mem_nil⟩
      | cons first before =>
        refine ⟨first.now, fun _ h => absurd h List.not_mem_nil, fun c hc => ?_⟩
        rcases List.mem_cons.1 hc with rfl | hc
        · exact le_rfl
        · exact (List.pairwise_cons.1 hclock).1 c (List.mem_append_left _ hc)
    obtain ⟨now, hstart, hnow⟩ := hsound
    obtain ⟨later, hend⟩ := hstart.checks before hrate hcap (fun c hc => (hcosts c (List.mem_append_left _ hc)).1) hnow
      (List.pairwise_append.1 hclock).1
    obtain ⟨htokens, hfull, -⟩ := hend e he
    rw [(checks_params before l).2] at hfull
    exact ⟨htokens, hfull⟩
  · intro key t T hT
    have hpositive : ∀ a ∈ (l.checks calls).1, 0 < a.1.cost := by
      intro a ha
      have hmem : a.1 ∈ (l.checks calls).1.map Prod.fst := List.mem_map_of_mem ha
      rw [checks_calls] at hmem
      exact (hcosts _ hmem).1
    have hsorted : ((ofKey key calls).map Prod.fst).Pairwise (· ≤ ·) := by
      rw [ofKey, List.map_map]
      exact List.pairwise_map.2 (hclock.filter _)
    have hspent : Bucket.spent t (t + T) (answersOf key (l.checks calls).1) ≤ capacity + T * rate := by
      rw [hfits.answers key calls hknown]
      refine Bucket.spent_le hrate.le hcap.le t hT _ none (by simp) hsorted fun r hr => ?_
      obtain ⟨c, hc, rfl⟩ := List.mem_map.1 hr
      exact (hcosts c (List.mem_of_mem_filter hc)).1.le
    calc (admissions key t (t + T) (l.checks calls).1 : ℚ)
        ≤ Bucket.spent t (t + T) (answersOf key (l.checks calls).1) := admissions_le_spent key t (t + T) hpositive
      _ ≤ capacity + T * rate := hspent
      _ = capacity + rate * T := by rw [mul_comm T]
  · rintro before c mid again after rfl hkey hcost hmid hrefused hlater
    have hin : ∀ d, d ∈ before ∨ d = c ∨ d ∈ mid → d ∈ before ++ c :: mid ++ again :: after := by
      intro d hd
      simp only [List.mem_append, List.mem_cons]
      tauto
    have hbefore := hfits.checks before fun d hd => hknown d (hin d (.inl hd))
    obtain ⟨hrates, hcaps⟩ := checks_params before l
    have hsame : again = { c with now := again.now } := by
      cases again
      cases c
      cases hkey
      cases hcost
      rfl
    rw [checks_append, hsame]
    exact hbefore.again (hknown c (hin c (.inr (.inl rfl)))) (hrates ▸ hrate)
      (hcaps ▸ (hcosts c (hin c (.inr (.inl rfl)))).2) (fun d hd => ⟨hknown d (hin d (.inr (.inr hd))), hmid d hd⟩) hrefused hlater

/-- Two tokens, refilled at one a second: the third call at once is refused. -/
theorem limiter_bounds_burst :
    let l : TokenBucketLimiter := { ratePerSecond := 1, capacity := 2, maxKeys := 1 }
    let c : Call := { key := Text.ofString "k", now := 0 }
    (TokenBucketLimiter.admissions (Text.ofString "k") 0 (0 + 0) (l.checks [c, c, c]).1 : ℚ) ≤ 2 + 1 * 0 :=
  (@limiter_bounds 1 2 1 one_pos two_pos
    [⟨Text.ofString "k", 1, 0⟩, ⟨Text.ofString "k", 1, 0⟩, ⟨Text.ofString "k", 1, 0⟩]
    (by simp) (by simp) (by decide)).2.1 _ 0 0 le_rfl

end LogAnalytics.Api
