import Mathlib.Data.Finset.Card
import Mathlib.Tactic.Linarith
import LogAnalytics.Api.PrincipalCache
import LogAnalytics.Lib.Timed
/-!
# How long a revoked key is accepted

The calls of `_authenticate_via_store` again, now against the clock: a call reads
`time.monotonic()` once, when it begins, and everything it caches or finds is measured from there.
However the calls, the revocations and the clearings come between one another, a key is not
accepted from thirty seconds after its revocation on, and what the cache holds beyond its limit is
owed to calls that are still on their way.
-/
open LogAnalytics.Lib

namespace LogAnalytics.Api

/-- The call has a principal from the store and has not returned it. -/
def Phase.pending : Phase → Bool
  | .verified _ | .inserted _ | .overfull _ => true
  | _ => false

/-- The call has put its principal into the cache and has not returned. -/
def Phase.trimming : Phase → Bool
  | .inserted _ | .overfull _ => true
  | _ => false

/-- What a step reads off the clock. -/
def AuthStep.reading : AuthStep → Option ℚ
  | .begin _ _ now => some now
  | _ => none

/-- A step at an instant: what it reads is that instant. -/
def Authenticator.stepAt (env : Env) (t : ℚ) (s : Authenticator) (x : AuthStep) :
    Option (Authenticator × List AuthEvent) :=
  if x.reading.all (· = t) then s.step env x else none

theorem PrincipalCache.mem_assign {cache : PrincipalCache} {key : Text} {value : ℚ × Principal} {e : Text × ℚ × Principal}
    (h : e ∈ cache.assign key value) : e ∈ cache ∨ e = (key, value) := by
  unfold assign at h
  split at h
  · obtain ⟨e', he', rfl⟩ := List.mem_map.1 h
    split
    · exact .inr rfl
    · exact .inl he'
  · simpa using h

theorem PrincipalCache.length_assign (cache : PrincipalCache) (key : Text) (value : ℚ × Principal) :
    (cache.assign key value).length ≤ cache.length + 1 := by
  unfold assign
  split <;> simp

/-! ## The age of what a call holds -/

/-- One step of a call: how old a principal can be that it holds, returns or caches, and how much it
adds to the cache. -/
structure Authentication.Dated (env : Env) (records : List ApiKeyRecord) (cache : PrincipalCache) (a : Authentication)
    (cache' : PrincipalCache) (phase : Phase) : Prop where
  entries : ∀ e ∈ cache', e ∈ cache ∨
    e.1 = env.hashSecret a.presented ∧ e.2.1 = a.now + principalCacheTtlSeconds ∧ a.phase.pending = true
  pending : phase.pending = true → a.phase.pending = true ∨ Known env records a.presented
  returned : ∀ p, phase = .returned (some p) →
    a.phase.pending = true ∨ ∃ e ∈ cache, e.1 = env.hashSecret a.presented ∧ a.now < e.2.1
  unfinished : ∀ p, a.phase ≠ .returned p
  /-- A call over the limit leaves one entry fewer, and a call that has returned found the cache within it. -/
  size : (cache'.length ≤ cache.length ∧ a.phase.trimming = false) ∨
    (phase.trimming = true ∧ a.phase.trimming = false ∧ cache'.length ≤ cache.length + 1) ∨
    (phase.trimming = true ∧ cache'.length ≤ cache.length) ∨ cache'.length ≤ principalCacheMax

theorem Authentication.work_dated {env : Env} {records : List ApiKeyRecord} {cache cache' : PrincipalCache}
    {a : Authentication} {w : Work} {phase : Phase} (h : a.work env records cache w = some (cache', phase)) :
    a.Dated env records cache cache' phase := by
  cases w with
  | lookup =>
    simp only [work] at h
    split at h
    · next hphase =>
      have hunfinished : ∀ p, a.phase ≠ .returned p := fun p hp => by rw [hphase] at hp; cases hp
      split at h
      · next expiresAt principal hfound =>
        cases h
        refine ⟨fun e he => .inl he, fun hp => ?_, fun p hp => .inr ?_, hunfinished, .inl ⟨le_rfl, by rw [hphase]; rfl⟩⟩
        · split at hp <;> cases hp
        · split at hp
          · next hlive => exact ⟨_, mem_of_lookup hfound, rfl, hlive⟩
          · cases hp
      · cases h
        exact ⟨fun e he => .inl he, fun hp => (by cases hp), fun p hp => (by cases hp), hunfinished,
          .inl ⟨le_rfl, by rw [hphase]; rfl⟩⟩
    · cases h
  | pop =>
    simp only [work] at h
    split at h
    · next hphase =>
      cases h
      refine ⟨fun e he => .inl (List.mem_of_mem_filter he), fun hp => (by cases hp), fun p hp => (by cases hp),
        fun p hp => ?_, .inl ⟨List.length_filter_le _ _, by rw [hphase]; rfl⟩⟩
      rw [hphase] at hp
      cases hp
    · cases h
  | verify raises =>
    simp only [work] at h
    split at h
    · next hphase =>
      have hunfinished : ∀ p, a.phase ≠ .returned p := fun p hp => by rw [hphase] at hp; cases hp
      split at h
      · next record hrecord =>
        cases h
        refine ⟨fun e he => .inl he, fun _ => .inr ?_, fun p hp => (by cases hp), hunfinished,
          .inl ⟨le_rfl, by rw [hphase]; rfl⟩⟩
        cases raises with
        | false => exact known_of_verify hrecord
        | true => cases hrecord
      · cases h
        exact ⟨fun e he => .inl he, fun hp => (by cases hp), fun p hp => (by cases hp), hunfinished,
          .inl ⟨le_rfl, by rw [hphase]; rfl⟩⟩
    · cases h
  | insert =>
    simp only [work] at h
    split at h
    · next principal hphase =>
      cases h
      refine ⟨fun e he => (PrincipalCache.mem_assign he).imp_right ?_, fun _ => .inl (by rw [hphase]; rfl),
        fun p hp => (by cases hp), fun p hp => ?_, .inr (.inl ⟨rfl, by rw [hphase]; rfl, PrincipalCache.length_assign ..⟩)⟩
      · rintro rfl
        exact ⟨rfl, rfl, by rw [hphase]; rfl⟩
      · rw [hphase] at hp
        cases hp
    · cases h
  | trim =>
    simp only [work] at h
    split at h
    · next principal hphase =>
      cases h
      have hpending : a.phase.pending = true := by rw [hphase]; rfl
      refine ⟨fun e he => .inl he, fun _ => .inl hpending, fun p _ => .inl hpending, fun p hp => ?_, .inr (.inr ?_)⟩
      · rw [hphase] at hp
        cases hp
      · split
        · exact .inl ⟨rfl, le_rfl⟩
        · next hwithin => exact .inr (not_lt.1 hwithin)
    · cases h
  | evict =>
    simp only [work] at h
    split at h
    · next principal hphase =>
      have hpending : a.phase.pending = true := by rw [hphase]; rfl
      have hunfinished : ∀ p, a.phase ≠ .returned p := fun p hp => by rw [hphase] at hp; cases hp
      split at h
      · cases h
        exact ⟨fun e he => .inl he, fun hp => (by cases hp), fun p hp => (by cases hp), hunfinished,
          .inr (.inr (.inr (Nat.zero_le _)))⟩
      · cases h
        exact ⟨fun e he => .inl (List.mem_cons_of_mem _ he), fun _ => .inl hpending, fun p hp => (by cases hp),
          hunfinished, .inr (.inr (.inl ⟨rfl, Nat.le_succ _⟩))⟩
    · cases h

/-! ## What is known at every instant -/

namespace Authenticator

/-- The revocations among what has been observed. -/
def revocations (tr : List (ℚ × AuthEvent)) : List AuthEvent :=
  (tr.map Prod.snd).filter fun e => match e with
    | .revoked _ => true
    | _ => false

theorem revocations_append (tr o : List (ℚ × AuthEvent)) : revocations (tr ++ o) = revocations tr ++ revocations o := by
  simp [revocations]

theorem mem_revocations {tr : List (ℚ × AuthEvent)} {u : ℚ} {h : Text} (hmem : (u, .revoked h) ∈ tr) :
    [.revoked h].Sublist (revocations tr) := by
  rw [List.singleton_sublist]
  exact List.mem_filter.2 ⟨List.mem_map_of_mem (f := Prod.snd) hmem, rfl⟩

structure Within (env : Env) (s : Timed ℚ Authenticator) (tr : List (ℚ × AuthEvent)) : Prop where
  store : Inv env s.state (revocations tr)
  stamps : ∀ e ∈ tr, e.1 ≤ s.clock
  expires : ∀ e ∈ s.state.cache, e.2.1 ≤ s.clock + principalCacheTtlSeconds
  now : ∀ i a, s.state.call i = some a → a.now ≤ s.clock
  began : ∀ b i, (b, .began i) ∈ tr → ∃ a, s.state.call i = some a ∧ a.now = b
  accepted : ∀ t i h, (t, .accepted i h) ∈ tr →
    ∃ a p, s.state.call i = some a ∧ env.hashSecret a.presented = h ∧ a.phase = .returned (some p)
  cached : ∀ u h, (u, .revoked h) ∈ tr → ∀ e ∈ s.state.cache, e.1 = h → e.2.1 ≤ u + principalCacheTtlSeconds
  pending : ∀ u h, (u, .revoked h) ∈ tr → ∀ i a, s.state.call i = some a → env.hashSecret a.presented = h →
    a.phase.pending = true → a.now ≤ u
  returned : ∀ u h, (u, .revoked h) ∈ tr → ∀ i a p, s.state.call i = some a → env.hashSecret a.presented = h →
    a.phase = .returned (some p) → a.now < u + principalCacheTtlSeconds

variable {env : Env} {s s' : Timed ℚ Authenticator} {tr o : List (ℚ × AuthEvent)} {t : ℚ}

theorem Within.start (t : ℚ) : Within env ⟨t, {}⟩ [] where
  store := Inv.start
  stamps := fun _ h => absurd h List.not_mem_nil
  expires := fun _ h => absurd h List.not_mem_nil
  now := fun _ _ h => by cases h
  began := fun _ _ h => absurd h List.not_mem_nil
  accepted := fun _ _ _ h => absurd h List.not_mem_nil
  cached := fun _ _ h => absurd h List.not_mem_nil
  pending := fun _ _ h => absurd h List.not_mem_nil
  returned := fun _ _ h => absurd h List.not_mem_nil

/-- Of the store only the records count. -/
theorem Inv.records {a b : Authenticator} (h : Inv env a (revocations tr)) (hrecords : b.records = a.records) :
    Inv env b (revocations tr) := by
  have hemptied {l : List AuthEvent} (hl : .emptied ∈ l) : ¬ l.Sublist (revocations tr) := fun hsub =>
    absurd (List.mem_filter.1 (hsub.subset hl)).2 (by simp)
  exact ⟨hrecords ▸ h.hashed, hrecords ▸ h.unique, hrecords ▸ h.revoked, fun _ hkey => absurd hkey (hemptied (by simp)),
    fun _ _ hkey => absurd hkey (hemptied (by simp)), fun _ _ => hemptied (by simp)⟩

/-- A step that leaves the calls as they are and adds nothing to the cache. -/
theorem Within.still (h : Within env s tr) (hclock : s.clock ≤ s'.clock) (hstamps : ∀ e ∈ tr ++ o, e.1 ≤ s'.clock)
    (hstore : Inv env s'.state (revocations (tr ++ o))) (hcall : s'.state.call = s.state.call)
    (hcache : s'.state.cache ⊆ s.state.cache) (hat : ∀ u key, (u, .revoked key) ∈ o → u = s'.clock)
    (ho : ∀ e ∈ o, ∀ i, e.2 ≠ .began i ∧ ∀ key, e.2 ≠ .accepted i key) : Within env s' (tr ++ o) := by
  have hnow (i : AuthId) (a : Authentication) (hi : s'.state.call i = some a) : a.now ≤ s'.clock :=
    (h.now i a (hcall ▸ hi)).trans hclock
  have hexpires (e : Text × ℚ × Principal) (he : e ∈ s'.state.cache) : e.2.1 ≤ s'.clock + principalCacheTtlSeconds := by
    have := h.expires e (hcache he)
    linarith
  refine ⟨hstore, hstamps, hexpires, hnow, fun b i hb => ?_, fun t i key hkey => ?_, fun u key hu => ?_,
    fun u key hu i a hi hkey hp => ?_, fun u key hu i a p hi hkey hp => ?_⟩
  · rw [hcall]
    exact h.began b i ((List.mem_append.1 hb).resolve_right fun hb => (ho _ hb i).1 rfl)
  · rw [hcall]
    exact h.accepted t i key ((List.mem_append.1 hkey).resolve_right fun hkey => (ho _ hkey i).2 key rfl)
  · intro e he hkey
    rcases List.mem_append.1 hu with hu | hu
    · exact h.cached u key hu e (hcache he) hkey
    · rw [hat u key hu]
      exact hexpires e he
  · rcases List.mem_append.1 hu with hu | hu
    · exact h.pending u key hu i a (hcall ▸ hi) hkey hp
    · rw [hat u key hu]
      exact hnow i a hi
  · rcases List.mem_append.1 hu with hu | hu
    · exact h.returned u key hu i a p (hcall ▸ hi) hkey hp
    · rw [hat u key hu]
      exact lt_of_le_of_lt (hnow i a hi) (lt_add_of_pos_right _ (by norm_num [principalCacheTtlSeconds]))

theorem Within.begin (h : Within env s tr) (hclock : s.clock ≤ t) {i : AuthId} {presented : Text}
    {state : Authenticator} {o : List AuthEvent} (hstamps : ∀ e ∈ tr ++ o.map (Prod.mk t), e.1 ≤ t)
    (hs : s.state.step env (.begin i presented t) = some (state, o)) :
    Within env ⟨t, state⟩ (tr ++ o.map (Prod.mk t)) := by
  simp only [step] at hs
  split at hs
  · next hfree =>
    cases hs
    have hother {j : AuthId} {a : Authentication}
        (hj : Function.update s.state.call i (some { presented, now := t }) j = some a) :
        (j = i ∧ a = { presented, now := t }) ∨ s.state.call j = some a := by
      by_cases hji : j = i
      · rw [hji, Function.update_self] at hj
        cases hj
        exact .inl ⟨hji, rfl⟩
      · rw [Function.update_of_ne hji] at hj
        exact .inr hj
    have hkept {j : AuthId} {a : Authentication} (hj : s.state.call j = some a) :
        Function.update s.state.call i (some { presented, now := t }) j = some a := by
      rw [Function.update_of_ne (fun hji => by rw [hji, hfree] at hj; cases hj)]
      exact hj
    have hold {u : ℚ} {key : Text} (hu : (u, .revoked key) ∈ tr ++ [AuthEvent.began i].map (Prod.mk t)) :
        (u, .revoked key) ∈ tr := by
      simpa using hu
    refine ⟨?_, hstamps, fun e he => ?_, fun j a hj => ?_, fun b j hb => ?_, fun t j key hkey => ?_,
      fun u key hu => h.cached u key (hold hu), fun u key hu j a hj hkey hp => ?_, fun u key hu j a p hj hkey hp => ?_⟩
    · rw [revocations_append]
      simp only [List.map_cons, List.map_nil, revocations, List.filter_cons, List.filter_nil, Bool.false_eq_true,
        if_false, List.append_nil]
      exact h.store.records rfl
    · have := h.expires e he
      simp only at hclock ⊢
      linarith
    · rcases hother hj with ⟨-, rfl⟩ | hj
      · exact le_rfl
      · exact (h.now j a hj).trans hclock
    · rcases List.mem_append.1 hb with hb | hb
      · obtain ⟨a, hj, ha⟩ := h.began b j hb
        exact ⟨a, hkept hj, ha⟩
      · simp only [List.map_cons, List.map_nil, List.mem_singleton, Prod.mk.injEq, AuthEvent.began.injEq] at hb
        obtain ⟨rfl, rfl⟩ := hb
        exact ⟨_, Function.update_self .., rfl⟩
    · obtain ⟨a, p, hj, ha⟩ := h.accepted t j key (by simpa using hkey)
      exact ⟨a, p, hkept hj, ha⟩
    · rcases hother hj with ⟨-, rfl⟩ | hj
      · cases hp
      · exact h.pending u key (hold hu) j a hj hkey hp
    · rcases hother hj with ⟨-, rfl⟩ | hj
      · cases hp
      · exact h.returned u key (hold hu) j a p hj hkey hp
  · cases hs

theorem Within.work (h : Within env s tr) (hclock : s.clock ≤ t) {i : AuthId} {w : Work} {state : Authenticator}
    {o : List AuthEvent} (hstamps : ∀ e ∈ tr ++ o.map (Prod.mk t), e.1 ≤ t)
    (hs : s.state.step env (.work i w) = some (state, o)) : Within env ⟨t, state⟩ (tr ++ o.map (Prod.mk t)) := by
  simp only [step] at hs
  split at hs
  · cases hs
  · next a hi =>
    split at hs
    · cases hs
    · next cache phase hwork =>
      have hd := Authentication.work_dated hwork
      have hnow := h.now i a hi
      have hcall {j : AuthId} {b : Authentication}
          (hj : Function.update s.state.call i (some { a with phase := phase }) j = some b) :
          (j = i ∧ b = { a with phase := phase }) ∨ s.state.call j = some b := by
        by_cases hji : j = i
        · rw [hji, Function.update_self] at hj
          cases hj
          exact .inl ⟨hji, rfl⟩
        · rw [Function.update_of_ne hji] at hj
          exact .inr hj
      have hkept {j : AuthId} {b : Authentication} (hj : s.state.call j = some b) (hji : j ≠ i) :
          Function.update s.state.call i (some { a with phase := phase }) j = some b := by
        rw [Function.update_of_ne hji]
        exact hj
      -- what the step shows is at most that this call is answered
      have ho : ∀ e ∈ o, ∃ p, e = .accepted i (env.hashSecret a.presented) ∧ phase = .returned (some p) := by
        simp only [Option.some.injEq, Prod.mk.injEq] at hs
        obtain ⟨-, rfl⟩ := hs
        split
        · simp
        · simp
      have hrevoked {u : ℚ} {key : Text} (hu : (u, .revoked key) ∈ tr ++ o.map (Prod.mk t)) : (u, .revoked key) ∈ tr := by
        refine (List.mem_append.1 hu).resolve_right fun hu => ?_
        obtain ⟨e, he, heq⟩ := List.mem_map.1 hu
        obtain ⟨p, rfl, -⟩ := ho e he
        cases heq
      have hrevocations : revocations (tr ++ o.map (Prod.mk t)) = revocations tr := by
        have hnone : revocations (o.map (Prod.mk t)) = [] := by
          rw [revocations, List.filter_eq_nil_iff]
          intro e he
          rw [List.map_map, List.mem_map] at he
          obtain ⟨e, he, rfl⟩ := he
          obtain ⟨p, rfl, -⟩ := ho e he
          simp
        rw [revocations_append, hnone, List.append_nil]
      -- a call that comes by a principal after the revocation of its key has it from the cache
      have hunknown {u : ℚ} (hu : (u, .revoked (env.hashSecret a.presented)) ∈ tr) :
          ¬ Known env s.state.records a.presented :=
        h.store.not_known (mem_revocations hu)
      simp only [Option.some.injEq, Prod.mk.injEq] at hs
      obtain ⟨rfl, -⟩ := hs
      refine ⟨hrevocations ▸ h.store.records rfl, hstamps, fun e he => ?_, fun j b hj => ?_, fun b j hb => ?_,
        fun r j key hkey => ?_, fun u key hu e he hkey => ?_, fun u key hu j b hj hkey hp => ?_,
        fun u key hu j b p hj hkey hp => ?_⟩
      · rcases hd.entries e he with he | ⟨-, hexpires, -⟩
        · have := h.expires e he
          simp only
          linarith
        · simp only
          linarith
      · rcases hcall hj with ⟨-, rfl⟩ | hj
        · exact hnow.trans hclock
        · exact (h.now j b hj).trans hclock
      · have hb : (b, .began j) ∈ tr := by
          refine (List.mem_append.1 hb).resolve_right fun hb => ?_
          obtain ⟨e, he, heq⟩ := List.mem_map.1 hb
          obtain ⟨p, rfl, -⟩ := ho e he
          cases heq
        obtain ⟨c, hj, hc⟩ := h.began b j hb
        by_cases hji : j = i
        · rw [hji, hi] at hj
          cases hj
          rw [hji]
          exact ⟨_, Function.update_self .., hc⟩
        · exact ⟨c, hkept hj hji, hc⟩
      · rcases List.mem_append.1 hkey with hkey | hkey
        · obtain ⟨c, p, hj, hc, hp⟩ := h.accepted r j key hkey
          refine ⟨c, p, hkept hj fun hji => ?_, hc, hp⟩
          -- a call that has been answered does nothing more
          rw [hji, hi] at hj
          cases hj
          exact hd.unfinished _ hp
        · obtain ⟨e, he, heq⟩ := List.mem_map.1 hkey
          obtain ⟨p, rfl, hp⟩ := ho e he
          cases heq
          exact ⟨_, p, Function.update_self .., rfl, hp⟩
      · have hu := hrevoked hu
        rcases hd.entries e he with he | ⟨hhash, hexpires, hp⟩
        · exact h.cached u key hu e he hkey
        · have := h.pending u key hu i a hi (hhash.symm.trans hkey) hp
          linarith
      · have hu := hrevoked hu
        rcases hcall hj with ⟨rfl, rfl⟩ | hj
        · rcases hd.pending hp with hp | hknown
          · exact h.pending u key hu j a hi hkey hp
          · exact absurd hknown (hunknown (hkey ▸ hu))
        · exact h.pending u key hu j b hj hkey hp
      · have hu := hrevoked hu
        rcases hcall hj with ⟨rfl, rfl⟩ | hj
        · rcases hd.returned p hp with hp | ⟨e, he, hhash, hlive⟩
          · exact lt_of_le_of_lt (h.pending u key hu j a hi hkey hp)
              (lt_add_of_pos_right _ (by norm_num [principalCacheTtlSeconds]))
          · exact lt_of_lt_of_le hlive (h.cached u key hu e he (hhash.trans hkey))
        · exact h.returned u key hu j b p hj hkey hp

/-- Every step at every instant keeps what is known. -/
theorem Within.step (hhash : ∀ secret, storedHash env (env.hashSecret secret) = env.hashSecret secret) {x : ℚ × AuthStep}
    (h : Within env s tr) (hs : timed (stepAt env) s x = some (s', o)) : Within env s' (tr ++ o) := by
  have hstamps := timed_stamps hs h.stamps
  obtain ⟨r, x⟩ := x
  obtain ⟨hclock, ht, o, hstep, rfl⟩ := timed_some hs
  obtain ⟨t, state⟩ := s'
  subst ht
  simp only [stepAt, Option.ite_none_right_eq_some] at hstep
  obtain ⟨hreading, hstep⟩ := hstep
  cases x with
  | create name secret scopes =>
    have hstore := h.store.create hhash hstep
    simp only [Authenticator.step] at hstep
    split at hstep
    · cases hstep
      exact h.still hclock hstamps (by simpa using hstore) rfl (fun _ he => he) (by simp) (by simp)
    · cases hstep
      exact h.still hclock hstamps (by simpa using hstore) rfl (fun _ he => he) (by simp) (by simp)
  | revoke name =>
    have hstore := h.store.revoke hstep
    simp only [Authenticator.step] at hstep
    split at hstep
    · cases hstep
      exact h.still hclock hstamps (by simpa using hstore) rfl (fun _ he => he) (by simp) (by simp)
    · cases hstep
      refine h.still hclock hstamps ?_ rfl (fun _ he => he) (by simp) (by simp)
      rw [revocations_append]
      exact hstore
  | empty =>
    simp only [Authenticator.step, Option.ite_none_left_eq_some, Option.some.injEq, Prod.mk.injEq] at hstep
    obtain ⟨-, rfl, rfl⟩ := hstep
    refine h.still hclock hstamps ?_ rfl (List.nil_subset _) (by simp) (by simp)
    rw [revocations_append]
    exact (List.append_nil (revocations tr)).symm ▸ h.store.records rfl
  | clear =>
    simp only [Authenticator.step, Option.ite_none_right_eq_some, Option.some.injEq, Prod.mk.injEq] at hstep
    obtain ⟨-, rfl, rfl⟩ := hstep
    refine h.still hclock hstamps ?_ rfl (fun _ he => he) (by simp) (by simp)
    rw [revocations_append]
    exact (List.append_nil (revocations tr)).symm ▸ h.store.records rfl
  | begin i presented now =>
    obtain rfl : now = t := by simpa [AuthStep.reading] using hreading
    exact h.begin hclock hstamps hstep
  | work i w => exact h.work hclock hstamps hstep

/-- However the calls and the revocations come between one another, a call that is answered with the
principal of a key began less than thirty seconds after each revocation of the key. -/
theorem accepted_within_window (hhash : ∀ secret, storedHash env (env.hashSecret secret) = env.hashSecret secret)
    {steps : List (ℚ × AuthStep)} (hrun : runs (timed (stepAt env)) ⟨t, {}⟩ steps = some (s, tr)) {hash : Text}
    {i : AuthId} {u b r : ℚ} (hrevoked : (u, .revoked hash) ∈ tr) (hbegan : (b, .began i) ∈ tr)
    (haccepted : (r, .accepted i hash) ∈ tr) : b < u + principalCacheTtlSeconds := by
  have h : Within env s tr := runs_inv (Within env) (fun s x s' o tr h hs => h.step hhash hs) (Within.start t) hrun
  obtain ⟨a, ha, rfl⟩ := h.began b i hbegan
  obtain ⟨a', p, ha', hkey, hp⟩ := h.accepted r i hash haccepted
  rw [ha] at ha'
  cases ha'
  exact h.returned u hash hrevoked i a p ha hkey hp

/-- The key is verified and cached, revoked a second later, and found in the cache at twenty-nine. -/
def lingering : List (ℚ × AuthStep) :=
  [(0, .create victim victimKey (Text.ofString "read")), (0, .begin 0 victimKey 0), (0, .work 0 .lookup),
    (0, .work 0 (.verify false)), (0, .work 0 .insert), (0, .work 0 .trim), (1, .revoke victim),
    (29, .begin 1 victimKey 29), (29, .work 1 .lookup)]

theorem accepted_within_window_lingering : ∃ s tr,
    runs (timed (stepAt sampleEnv)) ⟨0, {}⟩ lingering = some (s, tr) ∧ (1, .revoked victimHash) ∈ tr ∧
      (29, .accepted 1 victimHash) ∈ tr ∧ (29 : ℚ) < 1 + principalCacheTtlSeconds := by
  have htrace : (runs (timed (stepAt sampleEnv)) ⟨0, {}⟩ lingering).map Prod.snd =
      some [(0, .began 0), (0, .accepted 0 victimHash), (1, .revoked victimHash), (29, .began 1),
        (29, .accepted 1 victimHash)] := by decide +kernel
  obtain ⟨⟨s, tr⟩, hrun, htr⟩ := Option.map_eq_some_iff.1 htrace
  change tr = _ at htr
  have hrevoked : (1, .revoked victimHash) ∈ tr := by simp [htr]
  have hbegan : (29, .began 1) ∈ tr := by simp [htr]
  have haccepted : (29, .accepted 1 victimHash) ∈ tr := by simp [htr]
  exact ⟨s, tr, hrun, hrevoked, haccepted, accepted_within_window sampleEnv_hashes hrun hrevoked hbegan haccepted⟩

/-! ## The size of the cache -/

/-- What is over the limit was put there by calls that have not returned. -/
def Crowded (s : Authenticator) : Prop :=
  ∃ late : Finset AuthId, (∀ i ∈ late, ∃ a, s.call i = some a ∧ a.phase.trimming = true) ∧
    s.cache.length ≤ principalCacheMax + late.card

variable {a b : Authenticator}

/-- A step that starts no trimming and ends none, and adds nothing to the cache. -/
theorem Crowded.still (h : Crowded a) (hcache : b.cache.length ≤ a.cache.length)
    (hcall : ∀ i c, a.call i = some c → c.phase.trimming = true → b.call i = some c) : Crowded b := by
  obtain ⟨late, hlate, hsize⟩ := h
  refine ⟨late, fun i hi => ?_, hcache.trans hsize⟩
  obtain ⟨c, hc, htrimming⟩ := hlate i hi
  exact ⟨c, hcall i c hc htrimming, htrimming⟩

theorem Crowded.work {env : Env} (h : Crowded a) {i : AuthId} {w : Work} {o : List AuthEvent}
    (hs : a.step env (.work i w) = some (b, o)) : Crowded b := by
  simp only [Authenticator.step] at hs
  split at hs
  · cases hs
  · next c hi =>
    split at hs
    · cases hs
    · next cache phase hwork =>
      obtain ⟨late, hlate, hsize⟩ := h
      have hd := (Authentication.work_dated hwork).size
      simp only [Option.some.injEq, Prod.mk.injEq] at hs
      obtain ⟨rfl, -⟩ := hs
      have hother {j : AuthId} (hj : j ∈ late) (hji : j ≠ i) :
          ∃ d, Function.update a.call i (some { c with phase := phase }) j = some d ∧ d.phase.trimming = true := by
        rw [Function.update_of_ne hji]
        exact hlate j hj
      have hself (hp : phase.trimming = true) :
          ∃ d, Function.update a.call i (some { c with phase := phase }) i = some d ∧ d.phase.trimming = true :=
        ⟨_, Function.update_self .., hp⟩
      have hfresh (hp : c.phase.trimming = false) : i ∉ late := fun hmem => by
        obtain ⟨d, hd, htrimming⟩ := hlate i hmem
        rw [hi] at hd
        cases hd
        rw [hp] at htrimming
        cases htrimming
      rcases hd with ⟨hlen, hp⟩ | ⟨hp, hold, hlen⟩ | ⟨hp, hlen⟩ | hlen
      · exact ⟨late, fun j hj => hother hj fun hji => hfresh hp (hji ▸ hj), hlen.trans hsize⟩
      · refine ⟨insert i late, fun j hj => ?_, ?_⟩
        · by_cases hji : j = i
          · exact hji ▸ hself hp
          · exact hother (Finset.mem_of_mem_insert_of_ne hj hji) hji
        · rw [Finset.card_insert_of_notMem (hfresh hold), ← Nat.add_assoc]
          exact hlen.trans (Nat.succ_le_succ hsize)
      · refine ⟨late, fun j hj => ?_, hlen.trans hsize⟩
        by_cases hji : j = i
        · exact hji ▸ hself hp
        · exact hother hj hji
      · exact ⟨∅, fun j hj => absurd hj (Finset.notMem_empty j), hlen⟩

theorem Crowded.step {env : Env} {x : AuthStep} {o : List AuthEvent} (h : Crowded a) (hs : a.step env x = some (b, o)) :
    Crowded b := by
  cases x with
  | create name secret scopes =>
    simp only [Authenticator.step] at hs
    split at hs <;> cases hs <;> exact h.still le_rfl fun _ _ hc _ => hc
  | revoke name =>
    simp only [Authenticator.step] at hs
    split at hs <;> cases hs <;> exact h.still le_rfl fun _ _ hc _ => hc
  | empty =>
    simp only [Authenticator.step, Option.ite_none_left_eq_some, Option.some.injEq, Prod.mk.injEq] at hs
    obtain ⟨-, rfl, -⟩ := hs
    exact h.still (Nat.zero_le _) fun _ _ hc _ => hc
  | clear =>
    simp only [Authenticator.step, Option.ite_none_right_eq_some, Option.some.injEq, Prod.mk.injEq] at hs
    obtain ⟨-, rfl, -⟩ := hs
    exact h.still le_rfl fun _ _ hc _ => hc
  | begin i presented now =>
    simp only [Authenticator.step] at hs
    split at hs
    · next hfree =>
      cases hs
      refine h.still le_rfl fun j c hc _ => ?_
      have hji : j ≠ i := fun hji => by
        rw [hji, hfree] at hc
        cases hc
      exact (Function.update_of_ne hji ..).trans hc
    · cases hs
  | work i w => exact h.work hs

/-- Each entry over the limit is owed to a call that has cached its principal and not yet returned. -/
theorem cache_within_limit {env : Env} {steps : List AuthStep} {o : List AuthEvent}
    (hrun : runs (Authenticator.step env) {} steps = some (a, o)) : Crowded a :=
  runs_inv (fun s _ => Crowded s) (fun _ _ _ _ _ h hs => h.step hs)
    ⟨∅, fun i hi => absurd hi (Finset.notMem_empty i), Nat.zero_le _⟩ hrun

theorem cache_within_limit_settled : ∃ s tr,
    runs (Authenticator.step sampleEnv) {} settledSteps = some (s, tr) ∧ Crowded s :=
  ⟨_, _, rfl, cache_within_limit (show runs (Authenticator.step sampleEnv) {} settledSteps = some _ from rfl)⟩

end Authenticator

end LogAnalytics.Api
