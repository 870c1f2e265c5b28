import Mathlib.Logic.Function.Basic
import LogAnalytics.Api.RateLimit
import LogAnalytics.Lib.Assoc
import LogAnalytics.Lib.Runs
/-!
# Cached principals

`_authenticate_via_store` as a step relation over everything that runs at once: the threads of
the requests, and those that create keys, revoke them and clear the cache. A step is what one
thread does between two points where another can come in. Only `clear_principal_cache` holds a
lock; a call looks its key up, verifies it and caches the principal without one.
-/
open LogAnalytics.Lib

namespace LogAnalytics.Api

/-- The number of an authentication. -/
abbrev AuthId := Nat

structure Principal where
  name : Text
  scopes : List Text
  source : Text
  deriving DecidableEq

structure ApiKeyRecord where
  name : Text
  keyHash : Text
  scopes : Text
  active : Bool := true
  deriving DecidableEq

def ApiKeyRecord.scopeSet (r : ApiKeyRecord) : List Text :=
  (((r.scopes.splitOn (CodePoint.ofChar ',')).map Text.strip).filter (· ≠ [])).dedup

/-- The principal of a record, as the cache holds it. -/
def ApiKeyRecord.principal (r : ApiKeyRecord) : Principal := ⟨r.name, r.scopeSet, Text.ofString "database"⟩

/-! ## The store -/

section

variable (env : Env)

/-- What `verify_secret` compares with. -/
def storedHash (expectedHash : Text) : Text := env.textCase.lower (Text.strip expectedHash)

def verifySecret (candidate expectedHash : Text) : Bool := env.hashSecret candidate = storedHash env expectedHash

/-- The first active record the key fits. -/
def verifyApiKey (records : List ApiKeyRecord) (presented : Text) : Option ApiKeyRecord :=
  records.find? fun r => r.active && verifySecret env presented r.keyHash

end

/-- Names are unique, so there is one record to change. -/
def revokeApiKey (name : Text) (records : List ApiKeyRecord) : List ApiKeyRecord :=
  records.map fun r => if r.name = name then { r with active := false } else r

/-! ## The cache -/

def principalCacheTtlSeconds : ℚ := 30

def principalCacheMax : Nat := 1024

/-- An `OrderedDict`, oldest key first: when each entry expires, and the principal. -/
abbrev PrincipalCache := List (Text × ℚ × Principal)

/-- `cache[key] = value`: a key that is there keeps its place. -/
def PrincipalCache.assign (cache : PrincipalCache) (key : Text) (value : ℚ × Principal) : PrincipalCache :=
  if key ∈ cache.map Prod.fst then cache.map fun e => if e.1 = key then (key, value) else e
  else cache ++ [(key, value)]

/-! ## A call -/

/-- How far a call of `_authenticate_via_store` is. -/
inductive Phase where
  /-- It has hashed its key and read the clock. -/
  | arrived
  /-- It has found an entry that has run out. -/
  | expired
  /-- It is about to ask the store. -/
  | missed
  /-- The store has confirmed the key. -/
  | verified (principal : Principal)
  /-- At the head of the eviction loop. -/
  | inserted (principal : Principal)
  /-- It has found the cache over its limit. -/
  | overfull (principal : Principal)
  | returned (principal : Option Principal)
  /-- `popitem` on an empty dictionary: `KeyError`. -/
  | raised
  deriving DecidableEq

structure Authentication where
  presented : Text
  now : ℚ
  phase : Phase := .arrived

inductive Work where
  | lookup
  | pop
  /-- The store is asked, or the asking raises. -/
  | verify (raises : Bool)
  | insert
  | trim
  | evict

/-- `_authenticate_via_store`, one step at a time: the cache after it and how far the call is. -/
def Authentication.work (env : Env) (records : List ApiKeyRecord) (cache : PrincipalCache) (a : Authentication) :
    Work → Option (PrincipalCache × Phase)
  | .lookup =>
    match a.phase with
    | .arrived =>
      match cache.lookup (env.hashSecret a.presented) with
      | some (expiresAt, principal) =>
        some (cache, if a.now < expiresAt then .returned (some principal) else .expired)
      | none => some (cache, .missed)
    | _ => none
  | .pop =>
    match a.phase with
    | .expired => some (cache.filter (·.1 ≠ env.hashSecret a.presented), .missed)
    | _ => none
  | .verify raises =>
    match a.phase with
    | .missed =>
      match if raises then none else verifyApiKey env records a.presented with
      | some record => some (cache, .verified record.principal)
      | none => some (cache, .returned none)
    | _ => none
  | .insert =>
    match a.phase with
    | .verified principal =>
      some (cache.assign (env.hashSecret a.presented) (a.now + principalCacheTtlSeconds, principal), .inserted principal)
    | _ => none
  | .trim =>
    match a.phase with
    | .inserted principal =>
      some (cache, if principalCacheMax < cache.length then .overfull principal else .returned (some principal))
    | _ => none
  | .evict =>
    match a.phase with
    | .overfull principal =>
      match cache with
      | [] => some ([], .raised)
      | _ :: rest => some (rest, .inserted principal)
    | _ => none

/-! ## The system -/

structure Authenticator where
  records : List ApiKeyRecord := []
  cache : PrincipalCache := []
  /-- `_store_lock`, in the hands of `clear_principal_cache`. -/
  clearing : Bool := false
  call : AuthId → Option Authentication := fun _ => none

/-- What the surroundings see. A key is known by its hash. -/
inductive AuthEvent where
  | revoked (hash : Text)
  /-- `clear_principal_cache` has emptied the cache. -/
  | emptied
  /-- `clear_principal_cache` has returned. -/
  | cleared
  | began (i : AuthId)
  | accepted (i : AuthId) (hash : Text)
  deriving DecidableEq

inductive AuthStep where
  | create (name secret scopes : Text)
  | revoke (name : Text)
  | empty
  | clear
  | begin (i : AuthId) (presented : Text) (now : ℚ)
  | work (i : AuthId) (w : Work)

namespace Authenticator

def step (env : Env) (s : Authenticator) : AuthStep → Option (Authenticator × List AuthEvent)
  | .create name secret scopes =>
    -- both columns are unique: an insert that would repeat one raises
    if s.records.any fun r => r.name = name || r.keyHash = env.hashSecret secret then some (s, [])
    else some ({ s with records := s.records ++ [{ name, keyHash := env.hashSecret secret, scopes }] }, [])
  | .revoke name =>
    match s.records.find? (·.name = name) with
    | none => some (s, [])
    | some r => some ({ s with records := revokeApiKey name s.records }, [.revoked (storedHash env r.keyHash)])
  | .empty => if s.clearing then none else some ({ s with cache := [], clearing := true }, [.emptied])
  | .clear => if s.clearing then some ({ s with clearing := false }, [.cleared]) else none
  | .begin i presented now =>
    match s.call i with
    | none => some ({ s with call := Function.update s.call i (some { presented, now }) }, [.began i])
    | some _ => none
  | .work i w =>
    match s.call i with
    | none => none
    | some a =>
      match a.work env s.records s.cache w with
      | none => none
      | some (cache, phase) =>
        some ({ s with cache := cache, call := Function.update s.call i (some { a with phase := phase }) },
          match phase with
          | .returned (some _) => [.accepted i (env.hashSecret a.presented)]
          | _ => [])

end Authenticator

/-! ## What a call can do -/

/-- The call has a principal to answer with. -/
def Phase.holds : Phase → Bool
  | .verified _ | .inserted _ | .overfull _ | .returned (some _) => true
  | _ => false

/-- The store confirms the key. -/
def Known (env : Env) (records : List ApiKeyRecord) (presented : Text) : Prop :=
  ∃ r ∈ records, r.active = true ∧ verifySecret env presented r.keyHash = true

theorem known_of_verify {env : Env} {records : List ApiKeyRecord} {presented : Text} {r : ApiKeyRecord}
    (h : verifyApiKey env records presented = some r) : Known env records presented := by
  have hr := List.find?_some h
  rw [Bool.and_eq_true] at hr
  exact ⟨r, List.mem_of_find?_eq_some h, hr⟩

theorem PrincipalCache.mem_keys_assign {cache : PrincipalCache} {key k : Text} {value : ℚ × Principal}
    (h : k ∈ (cache.assign key value).map Prod.fst) : k ∈ cache.map Prod.fst ∨ k = key := by
  unfold assign at h
  split at h
  · left
    rw [List.map_map] at h
    obtain ⟨e, he, rfl⟩ := List.mem_map.1 h
    refine List.mem_map.2 ⟨e, he, ?_⟩
    simp only [Function.comp]
    split
    · next heq => exact heq
    · rfl
  · rw [List.map_append, List.mem_append] at h
    exact h.imp_right fun h => by simpa using h

/-- One step of a call: where its principal comes from, and what it can put into the cache. -/
structure Authentication.Worked (env : Env) (records : List ApiKeyRecord) (cache : PrincipalCache) (a : Authentication)
    (cache' : PrincipalCache) (phase : Phase) : Prop where
  holds : phase.holds = true →
    a.phase.holds = true ∨ env.hashSecret a.presented ∈ cache.map Prod.fst ∨ Known env records a.presented
  verified : ∀ p, phase = .verified p → Known env records a.presented
  keys : ∀ k ∈ cache'.map Prod.fst,
    k ∈ cache.map Prod.fst ∨ k = env.hashSecret a.presented ∧ ∃ p, a.phase = .verified p

theorem Authentication.work_spec {env : Env} {records : List ApiKeyRecord} {cache cache' : PrincipalCache}
    {a : Authentication} {w : Work} {phase : Phase} (h : a.work env records cache w = some (cache', phase)) :
    a.Worked env records cache cache' phase := by
  cases w with
  | lookup =>
    simp only [work] at h
    split at h
    · split at h
      · next hfound =>
        cases h
        have hkey := List.mem_map_of_mem (f := Prod.fst) (mem_of_lookup hfound)
        refine ⟨fun _ => .inr (.inl hkey), fun p hp => ?_, fun k hk => .inl hk⟩
        split at hp <;> cases hp
      · cases h
        exact ⟨fun hp => (by cases hp), fun p hp => (by cases hp), fun k hk => .inl hk⟩
    · cases h
  | pop =>
    simp only [work] at h
    split at h
    · cases h
      refine ⟨fun hp => (by cases hp), fun p hp => (by cases hp), fun k hk => .inl ?_⟩
      exact (List.filter_sublist.map Prod.fst).subset hk
    · cases h
  | verify raises =>
    simp only [work] at h
    split at h
    · split at h
      · next record hrecord =>
        cases h
        have hknown : Known env records a.presented := by
          cases raises with
          | false => exact known_of_verify hrecord
          | true => cases hrecord
        exact ⟨fun _ => .inr (.inr hknown), fun _ _ => hknown, fun k hk => .inl hk⟩
      · cases h
        exact ⟨fun hp => (by cases hp), fun p hp => (by cases hp), fun k hk => .inl hk⟩
    · cases h
  | insert =>
    simp only [work] at h
    split at h
    · next principal hphase =>
      cases h
      refine ⟨fun _ => .inl (by rw [hphase]; rfl), fun p hp => (by cases hp), fun k hk => ?_⟩
      exact (PrincipalCache.mem_keys_assign hk).imp_right fun hk => ⟨hk, principal, hphase⟩
    · cases h
  | trim =>
    simp only [work] at h
    split at h
    · next principal hphase =>
      cases h
      refine ⟨fun _ => .inl (by rw [hphase]; rfl), fun p hp => ?_, fun k hk => .inl hk⟩
      split at hp <;> cases hp
    · cases h
  | evict =>
    simp only [work] at h
    split at h
    · next principal hphase =>
      split at h
      · cases h
        exact ⟨fun hp => (by cases hp), fun p hp => (by cases hp), fun k hk => .inl hk⟩
      · cases h
        refine ⟨fun _ => .inl (by rw [hphase]; rfl), fun p hp => (by cases hp), fun k hk => .inl ?_⟩
        exact List.mem_cons_of_mem _ hk
    · cases h

/-! ## What is known of a revoked key -/

namespace Authenticator

/-- When the cache is emptied, no call with a revoked key stands between the answer of the store and
the insertion into the cache. -/
def Settled (env : Env) (s : Authenticator) : AuthStep → Prop
  | .empty => ∀ i a p, s.call i = some a → a.phase = .verified p →
      ∀ r ∈ s.records, r.active = false → verifySecret env a.presented r.keyHash = false
  | _ => True

structure Inv (env : Env) (s : Authenticator) (tr : List AuthEvent) : Prop where
  hashed : ∀ r ∈ s.records, storedHash env r.keyHash = r.keyHash
  unique : ∀ r ∈ s.records, ∀ r' ∈ s.records, r.keyHash = r'.keyHash → r.name = r'.name
  revoked : ∀ h, [.revoked h].Sublist tr →
    (∃ r ∈ s.records, r.keyHash = h) ∧ ∀ r ∈ s.records, r.keyHash = h → r.active = false
  emptied : ∀ h, [.revoked h, .emptied].Sublist tr →
    h ∉ s.cache.map Prod.fst ∧
      ∀ i a p, s.call i = some a → a.phase = .verified p → env.hashSecret a.presented ≠ h
  late : ∀ h i, [.revoked h, .emptied, .began i].Sublist tr →
    ∃ a, s.call i = some a ∧ (env.hashSecret a.presented = h → a.phase.holds = false)
  safe : ∀ h i, ¬ [.revoked h, .emptied, .began i, .accepted i h].Sublist tr

variable {env : Env} {s s' : Authenticator} {tr o : List AuthEvent}

theorem Inv.start : Inv env {} [] where
  hashed := fun _ hr => absurd hr List.not_mem_nil
  unique := fun _ hr => absurd hr List.not_mem_nil
  revoked := fun _ h => by cases h
  emptied := fun _ h => by cases h
  late := fun _ _ h => by cases h
  safe := fun _ _ h => by cases h

/-- The store does not confirm a revoked key. -/
theorem Inv.not_known (h : Inv env s tr) {presented : Text} (hr : [.revoked (env.hashSecret presented)].Sublist tr) :
    ¬ Known env s.records presented := by
  rintro ⟨r, hmem, hactive, hfits⟩
  have hhash : env.hashSecret presented = r.keyHash := by
    rw [← h.hashed r hmem]
    simpa [verifySecret] using hfits
  have hoff := (h.revoked _ hr).2 r hmem hhash.symm
  rw [hactive] at hoff
  cases hoff

theorem Inv.create (h : Inv env s tr) (hhash : ∀ secret, storedHash env (env.hashSecret secret) = env.hashSecret secret)
    {name secret scopes : Text} (hs : s.step env (.create name secret scopes) = some (s', o)) : Inv env s' (tr ++ o) := by
  simp only [step] at hs
  split at hs
  · cases hs
    rwa [List.append_nil]
  · next hnew =>
    cases hs
    have hfresh : ∀ r ∈ s.records, r.keyHash ≠ env.hashSecret secret := fun r hr heq =>
      hnew (List.any_eq_true.2 ⟨r, hr, by simp [heq]⟩)
    rw [List.append_nil]
    refine ⟨?_, ?_, fun key hkey => ?_, h.emptied, h.late, h.safe⟩
    · intro r hr
      rcases List.mem_append.1 hr with hr | hr
      · exact h.hashed r hr
      · rw [List.mem_singleton.1 hr]
        exact hhash secret
    · intro r hr r' hr' heq
      rcases List.mem_append.1 hr with hr | hr <;> rcases List.mem_append.1 hr' with hr' | hr'
      · exact h.unique r hr r' hr' heq
      · rw [List.mem_singleton.1 hr'] at heq
        exact absurd heq (hfresh r hr)
      · rw [List.mem_singleton.1 hr] at heq
        exact absurd heq.symm (hfresh r' hr')
      · rw [List.mem_singleton.1 hr, List.mem_singleton.1 hr']
    · obtain ⟨⟨r₀, hr₀, hkey₀⟩, hoff⟩ := h.revoked key hkey
      refine ⟨⟨r₀, List.mem_append_left _ hr₀, hkey₀⟩, fun r hr heq => ?_⟩
      rcases List.mem_append.1 hr with hr | hr
      · exact hoff r hr heq
      · rw [List.mem_singleton.1 hr] at heq
        exact absurd (hkey₀.trans heq.symm) (hfresh r₀ hr₀)

theorem mem_revoke {name : Text} {records : List ApiKeyRecord} {r : ApiKeyRecord} (hr : r ∈ revokeApiKey name records) :
    ∃ r₀ ∈ records, r.name = r₀.name ∧ r.keyHash = r₀.keyHash ∧ (r₀.active = false ∨ r₀.name = name → r.active = false) := by
  obtain ⟨r₀, hr₀, rfl⟩ := List.mem_map.1 hr
  refine ⟨r₀, hr₀, ?_⟩
  split
  · exact ⟨rfl, rfl, fun _ => rfl⟩
  · next hne => exact ⟨rfl, rfl, fun h => h.resolve_right hne⟩

theorem revoke_mem {name : Text} {records : List ApiKeyRecord} {r : ApiKeyRecord} (hr : r ∈ records) :
    ∃ r' ∈ revokeApiKey name records, r'.keyHash = r.keyHash := by
  refine ⟨_, List.mem_map_of_mem hr, ?_⟩
  split <;> rfl

theorem Inv.revoke (h : Inv env s tr) {name : Text} (hs : s.step env (.revoke name) = some (s', o)) :
    Inv env s' (tr ++ o) := by
  simp only [step] at hs
  split at hs
  · cases hs
    rwa [List.append_nil]
  · next r hr =>
    cases hs
    have hmem := List.mem_of_find?_eq_some hr
    have hname : r.name = name := by simpa using List.find?_some hr
    refine ⟨fun q hq => ?_, fun q hq q' hq' heq => ?_, fun key hkey => ?_, fun key hkey => ?_, fun key i hkey => ?_,
      fun key i hkey => ?_⟩
    · obtain ⟨q₀, hq₀, -, hhash, -⟩ := mem_revoke hq
      rw [hhash]
      exact h.hashed q₀ hq₀
    · obtain ⟨q₀, hq₀, hn, hhash, -⟩ := mem_revoke hq
      obtain ⟨q₁, hq₁, hn', hhash', -⟩ := mem_revoke hq'
      rw [hn, hn']
      exact h.unique q₀ hq₀ q₁ hq₁ (by rw [← hhash, heq, hhash'])
    · rw [h.hashed r hmem, one_sublist_snoc, AuthEvent.revoked.injEq] at hkey
      rcases hkey with hkey | rfl
      · obtain ⟨⟨r₀, hr₀, rfl⟩, hoff⟩ := h.revoked key hkey
        refine ⟨revoke_mem hr₀, fun q hq heq => ?_⟩
        obtain ⟨q₀, hq₀, -, hhash, hactive⟩ := mem_revoke hq
        exact hactive (.inl (hoff q₀ hq₀ (hhash.symm.trans heq)))
      · refine ⟨revoke_mem hmem, fun q hq heq => ?_⟩
        obtain ⟨q₀, hq₀, -, hhash, hactive⟩ := mem_revoke hq
        exact hactive (.inr ((h.unique q₀ hq₀ r hmem (hhash.symm.trans heq)).trans hname))
    · exact h.emptied key (older (l := [_]) hkey nofun)
    · exact h.late key i (older (l := [_, _]) hkey nofun)
    · exact h.safe key i (older (l := [_, _, _]) hkey nofun)

theorem Inv.empty (h : Inv env s tr) (hok : s.Settled env .empty) (hs : s.step env .empty = some (s', o)) :
    Inv env s' (tr ++ o) := by
  simp only [step, Option.ite_none_left_eq_some, Option.some.injEq, Prod.mk.injEq] at hs
  obtain ⟨-, rfl, rfl⟩ := hs
  refine ⟨h.hashed, h.unique, fun key hkey => ?_, fun key hkey => ⟨List.not_mem_nil, fun i a p hi hp => ?_⟩,
    fun key i hkey => ?_, fun key i hkey => ?_⟩
  · exact h.revoked key (older (l := []) hkey nofun)
  · rw [two_sublist_snoc] at hkey
    rcases hkey with hkey | ⟨-, hkey⟩
    · exact (h.emptied key hkey).2 i a p hi hp
    · -- a call that stands there has a key that has not been revoked
      rintro rfl
      obtain ⟨⟨r, hr, hhash⟩, hoff⟩ := h.revoked _ hkey
      have hfits := hok i a p hi hp r hr (hoff r hr hhash)
      rw [verifySecret, h.hashed r hr, hhash] at hfits
      simp at hfits
  · exact h.late key i (older (l := [_, _]) hkey nofun)
  · exact h.safe key i (older (l := [_, _, _]) hkey nofun)

theorem Inv.clear (h : Inv env s tr) (hs : s.step env .clear = some (s', o)) : Inv env s' (tr ++ o) := by
  simp only [step, Option.ite_none_right_eq_some, Option.some.injEq, Prod.mk.injEq] at hs
  obtain ⟨-, rfl, rfl⟩ := hs
  refine ⟨h.hashed, h.unique, fun key hkey => ?_, fun key hkey => ?_, fun key i hkey => ?_, fun key i hkey => ?_⟩
  · exact h.revoked key (older (l := []) hkey nofun)
  · exact h.emptied key (older (l := [_]) hkey nofun)
  · exact h.late key i (older (l := [_, _]) hkey nofun)
  · exact h.safe key i (older (l := [_, _, _]) hkey nofun)

theorem Inv.begin (h : Inv env s tr) {i : AuthId} {presented : Text} {now : ℚ}
    (hs : s.step env (.begin i presented now) = some (s', o)) : Inv env s' (tr ++ o) := by
  simp only [step] at hs
  split at hs
  · next hfree =>
    cases hs
    refine ⟨h.hashed, h.unique, fun key hkey => ?_, fun key hkey => ?_, fun key j hkey => ?_, fun key j hkey => ?_⟩
    · exact h.revoked key (older (l := []) hkey nofun)
    · have hemptied := h.emptied key (older (l := [_]) hkey nofun)
      refine ⟨hemptied.1, fun j a p hj hp => ?_⟩
      by_cases hji : j = i
      · simp only [hji, Function.update_self] at hj
        cases hj
        cases hp
      · simp only [Function.update_of_ne hji] at hj
        exact hemptied.2 j a p hj hp
    · by_cases hji : j = i
      · simp only [hji, Function.update_self]
        exact ⟨_, rfl, fun _ => rfl⟩
      · simp only [Function.update_of_ne hji]
        exact h.late key j (older (l := [_, _]) hkey (by simpa using hji))
    · exact h.safe key j (older (l := [_, _, _]) hkey nofun)
  · cases hs

theorem Inv.work (h : Inv env s tr) {i : AuthId} {w : Work} (hs : s.step env (.work i w) = some (s', o)) :
    Inv env s' (tr ++ o) := by
  simp only [step] at hs
  split at hs
  · cases hs
  · next a hi =>
    split at hs
    · cases hs
    · next cache phase hwork =>
      have hw := Authentication.work_spec hwork
      have hemptied (key : Text) (hkey : [.revoked key, .emptied].Sublist tr) :
          key ∉ cache.map Prod.fst ∧ ∀ j b p, Function.update s.call i (some { a with phase := phase }) j = some b →
            b.phase = .verified p → env.hashSecret b.presented ≠ key := by
        obtain ⟨hcache, hcalls⟩ := h.emptied key hkey
        refine ⟨fun hmem => ?_, fun j b p hj hp => ?_⟩
        · rcases hw.keys key hmem with hmem | ⟨rfl, p, hp⟩
          · exact hcache hmem
          · exact hcalls i a p hi hp rfl
        · by_cases hji : j = i
          · rw [hji, Function.update_self] at hj
            cases hj
            rintro rfl
            exact h.not_known ((List.sublist_append_left _ [_]).trans hkey) (hw.verified p hp)
          · rw [Function.update_of_ne hji] at hj
            exact hcalls j b p hj hp
      have hlate (key : Text) (j : AuthId) (hkey : [.revoked key, .emptied, .began j].Sublist tr) :
          ∃ b, Function.update s.call i (some { a with phase := phase }) j = some b ∧
            (env.hashSecret b.presented = key → b.phase.holds = false) := by
        obtain ⟨b, hj, hb⟩ := h.late key j hkey
        by_cases hji : j = i
        · rw [hji, hi] at hj
          cases hj
          rw [hji, Function.update_self]
          refine ⟨_, rfl, ?_⟩
          rintro rfl
          have htwo := (List.sublist_append_left [_, _] [_]).trans hkey
          by_contra hp
          rcases hw.holds ((Bool.not_eq_false _).mp hp) with hp | hcache | hknown
          · rw [hb rfl] at hp
            cases hp
          · exact (h.emptied _ htwo).1 hcache
          · exact h.not_known ((List.sublist_append_left [_] [_]).trans htwo) hknown
        · rw [Function.update_of_ne hji]
          exact ⟨b, hj, hb⟩
      simp only [Option.some.injEq, Prod.mk.injEq] at hs
      obtain ⟨rfl, rfl⟩ := hs
      split
      · next principal =>
        refine ⟨h.hashed, h.unique, fun key hkey => ?_, fun key hkey => ?_, fun key j hkey => ?_, fun key j hkey => ?_⟩
        · exact h.revoked key (older (l := []) hkey nofun)
        · exact hemptied key (older (l := [_]) hkey nofun)
        · exact hlate key j (older (l := [_, _]) hkey nofun)
        · rw [four_sublist_snoc, AuthEvent.accepted.injEq] at hkey
          rcases hkey with hkey | ⟨⟨rfl, rfl⟩, hkey⟩
          · exact h.safe key j hkey
          · obtain ⟨b, hj, hb⟩ := hlate _ _ hkey
            rw [Function.update_self] at hj
            cases hj
            cases hb rfl
      · rw [List.append_nil]
        exact ⟨h.hashed, h.unique, h.revoked, hemptied, hlate, h.safe⟩

/-- Every step keeps what is known. -/
theorem Inv.step (hhash : ∀ secret, storedHash env (env.hashSecret secret) = env.hashSecret secret) {x : AuthStep}
    (h : Inv env s tr) (hok : s.Settled env x) (hs : s.step env x = some (s', o)) : Inv env s' (tr ++ o) := by
  cases x with
  | create name secret scopes => exact h.create hhash hs
  | revoke name => exact h.revoke hs
  | empty => exact h.empty hok hs
  | clear => exact h.clear hs
  | begin i presented now => exact h.begin hs
  | work i w => exact h.work hs

/-! ## Revocation -/

/-- When every emptying of the cache is settled, no call that begins after `revoke_api_key` and
`clear_principal_cache` accepts the key. -/
theorem revocation_takes_effect (hhash : ∀ secret, storedHash env (env.hashSecret secret) = env.hashSecret secret)
    {steps : List AuthStep} (hok : Throughout (Settled env) (Authenticator.step env) {} steps)
    (hrun : runs (Authenticator.step env) {} steps = some (s, tr)) (hash : Text) (i : AuthId) :
    ¬ [.revoked hash, .emptied, .cleared, .began i, .accepted i hash].Sublist tr := by
  intro hsub
  have hinv := runs_inv_of (Settled env) (Inv env) (fun s x s' o tr hI hx hs => hI.step hhash hx hs) steps {} s [] tr
    Inv.start hok hrun
  exact hinv.safe hash i (.trans (.cons_cons _ (.cons_cons _ (.cons _ (.refl _)))) hsub)

/-! ## A call across the clearing -/

def victim : Text := Text.ofString "victim"

def victimKey : Text := Text.ofString "victim-key"

def victimHash : Text := Text.ofString "79545151ff56b3499fcd35335796b0f0a82d0b4d04bbfe6f235727129229619e"

def sampleEnv : Env where
  textCase := asciiCase
  hashSecret secret :=
    if secret = victimKey then victimHash
    else Text.ofString "e3b0c44298fc1c149afbf4c8996fb92427ae41e4649b934ca495991b7852b855"
  addressIn _ _ := false

theorem sampleEnv_hashes (secret : Text) :
    storedHash sampleEnv (sampleEnv.hashSecret secret) = sampleEnv.hashSecret secret := by
  simp only [sampleEnv]
  split <;> decide

/-- The store confirms the key, the key is revoked and the cache cleared, and the call puts the
principal into the empty cache, where the next one finds it. -/
def straddling : List AuthStep :=
  [.create victim victimKey (Text.ofString "read"), .begin 0 victimKey 0, .work 0 .lookup, .work 0 (.verify false),
    .revoke victim, .empty, .clear, .work 0 .insert, .work 0 .trim, .begin 1 victimKey 1, .work 1 .lookup]

theorem straddling_run : (runs (Authenticator.step sampleEnv) {} straddling).map Prod.snd =
    some [.began 0, .revoked victimHash, .emptied, .cleared, .accepted 0 victimHash, .began 1,
      .accepted 1 victimHash] := by decide +kernel

theorem revoked_key_accepted : ¬ ∀ env : Env,
    (∀ secret, storedHash env (env.hashSecret secret) = env.hashSecret secret) → ∀ steps s tr,
      runs (Authenticator.step env) {} steps = some (s, tr) → ∀ hash i,
        ¬ [.revoked hash, .emptied, .cleared, .began i, .accepted i hash].Sublist tr := by
  intro h
  obtain ⟨⟨s, tr⟩, hrun, rfl⟩ := Option.map_eq_some_iff.1 straddling_run
  refine h sampleEnv sampleEnv_hashes straddling s _ hrun victimHash 1 ?_
  exact .cons _ (.cons_cons _ (.cons_cons _ (.cons_cons _ (.cons _ (.refl _)))))

/-- The call returns before the key is revoked, and the next one begins after the clearing. -/
def settledSteps : List AuthStep :=
  [.create victim victimKey (Text.ofString "read"), .begin 0 victimKey 0, .work 0 .lookup, .work 0 (.verify false),
    .work 0 .insert, .work 0 .trim, .revoke victim, .empty, .clear, .begin 1 victimKey 1, .work 1 .lookup,
    .work 1 (.verify false)]

theorem settledSteps_throughout :
    Throughout (Settled sampleEnv) (Authenticator.step sampleEnv) {} settledSteps := by
  refine throughout_cons rfl trivial (throughout_cons rfl trivial (throughout_cons rfl trivial ?_))
  refine throughout_cons rfl trivial (throughout_cons rfl trivial (throughout_cons rfl trivial ?_))
  refine throughout_cons rfl trivial (throughout_cons rfl ?_ (throughout_cons rfl trivial ?_))
  · -- the one call there is has returned
    intro i a p hi hp
    by_cases h0 : i = 0
    · subst h0
      cases hi
      cases hp
    · simp [Function.update, h0] at hi
  · exact throughout_cons rfl trivial (throughout_cons rfl trivial (throughout_cons rfl trivial trivial))

theorem revocation_takes_effect_settled : ∃ s tr,
    runs (Authenticator.step sampleEnv) {} settledSteps = some (s, tr) ∧
      ¬ [.revoked victimHash, .emptied, .cleared, .began 1, .accepted 1 victimHash].Sublist tr :=
  ⟨_, _, rfl, revocation_takes_effect sampleEnv_hashes settledSteps_throughout rfl victimHash 1⟩

end Authenticator

end LogAnalytics.Api
