import LogAnalytics.Api.RevocationWindow
import LogAnalytics.Exn
import LogAnalytics.Lib.Loops
/-!
# Scopes

`authenticate` and `require_scope` over the cached principals, and the routes that create and revoke
keys. Requests are served, keys are created and revoked, and the cache is cleared in any order. What a
request may do was given to its key when the key was created, by a request that had the right to.
-/
open LogAnalytics.Lib

namespace LogAnalytics.Api

open Authenticator (victim victimKey victimHash sampleEnv sampleEnv_hashes)

/-! ## Principals -/

def scopeRead : Text := Text.ofString "read"

def scopeWrite : Text := Text.ofString "write"

def scopeAdmin : Text := Text.ofString "admin"

/-- `_SCOPE_IMPLIES.get(held, frozenset())` -/
def scopeImplies (held : Text) : List Text :=
  if held = scopeAdmin then [scopeAdmin, scopeWrite, scopeRead]
  else if held = scopeWrite then [scopeWrite, scopeRead]
  else if held = scopeRead then [scopeRead]
  else []

def Principal.has (p : Principal) (scope : Text) : Bool := p.scopes.any fun held => scope ∈ scopeImplies held

/-- `ANONYMOUS` -/
def anonymous : Principal := ⟨Text.ofString "anonymous", [scopeAdmin], Text.ofString "anonymous"⟩

/-- The principal of every key in the configuration. -/
def configKey : Principal := ⟨Text.ofString "config-key", [scopeAdmin], Text.ofString "config"⟩

/-! ## Authentication -/

/-- The part of the settings `authenticate` reads. -/
structure AuthSettings where
  authRequired : Bool := true
  apiKeyHashes : List Text := []
  apiKeys : List Text := []

/-- Why a request is turned away. -/
inductive Refusal where
  | unauthorized (detail : String)
  | forbidden (scope : Text)
  | raised (exn : Exn)
  deriving DecidableEq

/-- `authenticate` as far as the store: an answer, or a key to ask for. -/
inductive Arrival where
  | answered (result : Except Refusal Principal)
  | asks (presented : Text)

section

variable (env : Env) (settings : AuthSettings)

/-- `h.removeprefix("sha256:")` -/
def removeDigestName (h : Text) : Text :=
  if (Text.ofString "sha256:").isPrefixOf h then h.drop 7 else h

/-- `_configured_hashes` -/
def configuredHashes : List Text :=
  ((settings.apiKeyHashes.map fun h => removeDigestName (env.textCase.lower (Text.strip h))) ++
    settings.apiKeys.map env.hashSecret).filter (· ≠ [])

/-- The loop over the configured hashes. `compare_digest` takes ASCII texts only. -/
def isConfigured (presentedHash : Text) : List Text → Except Exn Bool
  | [] => .ok false
  | known :: more =>
    if !(presentedHash.isAscii && known.isAscii) then
      .error ⟨.typeError, "comparing strings with non-ASCII characters is not supported"⟩
    else if presentedHash = known then .ok true
    else isConfigured presentedHash more

def authenticate (apiKeyHeader authorization : Option Text) : Arrival :=
  if !settings.authRequired then .answered (.ok anonymous)
  else
    match given (extractKey env apiKeyHeader authorization) with
    | none => .answered (.error (.unauthorized "an API key is required"))
    | some presented =>
      match isConfigured (env.hashSecret presented) (configuredHashes env settings) with
      | .error exn => .answered (.error (.raised exn))
      | .ok true => .answered (.ok configKey)
      | .ok false => .asks presented

end

/-- `authenticate` behind the store. -/
def afterStore : Option Principal → Except Refusal Principal
  | some principal => .ok principal
  | none => .error (.unauthorized "invalid API key")

def requireScope (scope : Text) (principal : Principal) : Except Refusal Principal :=
  if principal.has scope then .ok principal else .error (.forbidden scope)

/-! ## The service -/

structure Gate where
  auth : Authenticator := {}
  arrivals : AuthId → Option Arrival := fun _ => none

inductive GateStep where
  | arrive (r : AuthId) (apiKeyHeader authorization : Option Text) (now : ℚ)
  /-- A step of the request's call of `_authenticate_via_store`. -/
  | work (r : AuthId) (w : Work)
  | empty
  | clear
  /-- A route that needs the scope. -/
  | serve (r : AuthId) (scope : Text)
  /-- `POST /admin/apikeys` -/
  | mint (r : AuthId) (name secret : Text) (scopes : List Text)
  /-- `DELETE /admin/apikeys/{name}`, up to the clearing of the cache. -/
  | revoke (r : AuthId) (name : Text)
  /-- `apikey create` on the command line. -/
  | operatorMint (name secret : Text) (scopes : List Text)
  /-- `apikey revoke` on the command line. -/
  | operatorRevoke (name : Text)

inductive GateEvent where
  | arrived (r : AuthId) (presented : Option Text)
  | granted (r : AuthId) (scope : Text) (principal : Principal)
  | refused (r : AuthId) (refusal : Refusal)
  /-- A key with this hash was created, for a request or by the operator. -/
  | minted (creator : Option AuthId) (hash : Text) (scopes : List Text)
  deriving DecidableEq

namespace Gate

/-- What `authenticate` has made of the request, if it is through. -/
def answer (s : Gate) (r : AuthId) : Option (Except Refusal Principal) :=
  match s.arrivals r with
  | none => none
  | some (.answered result) => some result
  | some (.asks _) =>
    match (s.auth.call r).map Authentication.phase with
    | some (.returned principal) => some (afterStore principal)
    | some .raised => some (.error (.raised ⟨.keyError, "dictionary is empty"⟩))
    | _ => none

def joinScopes (scopes : List Text) : Text := [CodePoint.ofChar ','].intercalate scopes

/-- The scopes that a key can be created with. -/
def isValid (scopes : List Text) : Bool := scopes.all fun scope => scope ∈ [scopeRead, scopeWrite, scopeAdmin]

/-- Create a key, if the scopes are valid and neither the name nor the hash is there already. -/
def create (env : Env) (s : Gate) (creator : Option AuthId) (name secret : Text) (scopes : List Text) :
    Option (Gate × List GateEvent) :=
  if !isValid scopes then some (s, [])
  else
    (s.auth.step env (.create name secret (joinScopes scopes))).map fun (auth, _) =>
      ({ s with auth := auth },
        if s.auth.records.any fun r => r.name = name || r.keyHash = env.hashSecret secret then []
        else [.minted creator (env.hashSecret secret) scopes])

/-- Do something for a request that has the scope. -/
def guarded (s : Gate) (r : AuthId) (scope : Text) (action : Gate → Option (Gate × List GateEvent)) :
    Option (Gate × List GateEvent) :=
  match s.answer r with
  | none => none
  | some result =>
    match result.bind (requireScope scope) with
    | .error refusal => some (s, [.refused r refusal])
    | .ok principal => (action s).map fun (s, shown) => (s, .granted r scope principal :: shown)

def onAuth (env : Env) (s : Gate) (step : AuthStep) : Option (Gate × List GateEvent) :=
  (s.auth.step env step).map fun (auth, _) => ({ s with auth := auth }, [])

def step (env : Env) (settings : AuthSettings) (s : Gate) : GateStep → Option (Gate × List GateEvent)
  | .arrive r apiKeyHeader authorization now =>
    match s.arrivals r with
    | some _ => none
    | none =>
      let arrival := authenticate env settings apiKeyHeader authorization
      let shown := [.arrived r (given (extractKey env apiKeyHeader authorization))]
      match arrival with
      | .answered _ => some ({ s with arrivals := Function.update s.arrivals r (some arrival) }, shown)
      | .asks presented =>
        (s.auth.step env (.begin r presented now)).map fun (auth, _) =>
          ({ auth := auth, arrivals := Function.update s.arrivals r (some arrival) }, shown)
  | .work r w => s.onAuth env (.work r w)
  | .empty => s.onAuth env .empty
  | .clear => s.onAuth env .clear
  | .serve r scope => s.guarded r scope fun s => some (s, [])
  | .mint r name secret scopes => s.guarded r scopeAdmin fun s => s.create env (some r) name secret scopes
  | .revoke r name => s.guarded r scopeAdmin fun s => s.onAuth env (.revoke name)
  | .operatorMint name secret scopes => s.create env none name secret scopes
  | .operatorRevoke name => s.onAuth env (.revoke name)

end Gate

/-! ## What a call holds -/

/-- The principal that the call is to answer with. -/
def Phase.principal : Phase → Option Principal
  | .verified p | .inserted p | .overfull p => some p
  | .returned p => p
  | _ => none

/-- One step of a call: where its principal comes from, and under which key it is cached. -/
structure Authentication.Sourced (env : Env) (records : List ApiKeyRecord) (cache : PrincipalCache) (a : Authentication)
    (cache' : PrincipalCache) (phase : Phase) : Prop where
  entries : ∀ e ∈ cache', e ∈ cache ∨ e.1 = env.hashSecret a.presented ∧ a.phase.principal = some e.2.2
  principal : ∀ p, phase.principal = some p →
    a.phase.principal = some p ∨ (∃ e ∈ cache, e.1 = env.hashSecret a.presented ∧ e.2.2 = p) ∨
      ∃ r ∈ records, verifySecret env a.presented r.keyHash = true ∧ r.principal = p

theorem Authentication.work_sourced {env : Env} {records : List ApiKeyRecord} {cache cache' : PrincipalCache}
    {a : Authentication} {w : Work} {phase : Phase} (h : a.work env records cache w = some (cache', phase)) :
    a.Sourced env records cache cache' phase := by
  cases w with
  | lookup =>
    simp only [work] at h
    split at h
    · split at h
      · next expiresAt principal hfound =>
        cases h
        refine ⟨fun e he => .inl he, fun p hp => .inr (.inl ⟨_, mem_of_lookup hfound, rfl, ?_⟩)⟩
        split at hp <;> cases hp
        rfl
      · cases h
        exact ⟨fun e he => .inl he, fun p hp => (by cases hp)⟩
    · cases h
  | pop =>
    simp only [work] at h
    split at h
    · cases h
      exact ⟨fun e he => .inl (List.mem_of_mem_filter he), fun p hp => (by cases hp)⟩
    · cases h
  | verify raises =>
    simp only [work] at h
    split at h
    · split at h
      · next record hrecord =>
        cases h
        refine ⟨fun e he => .inl he, fun p hp => .inr (.inr ?_)⟩
        cases hp
        cases raises with
        | true => cases hrecord
        | false =>
          have hfits := List.find?_some hrecord
          rw [Bool.and_eq_true] at hfits
          exact ⟨record, List.mem_of_find?_eq_some hrecord, hfits.2, rfl⟩
      · cases h
        exact ⟨fun e he => .inl he, fun p hp => (by cases hp)⟩
    · cases h
  | insert =>
    simp only [work] at h
    split at h
    · next principal hphase =>
      cases h
      have hheld : a.phase.principal = some principal := by rw [hphase]; rfl
      refine ⟨fun e he => (PrincipalCache.mem_assign he).imp_right ?_, fun p hp => .inl (hheld.trans hp)⟩
      rintro rfl
      exact ⟨rfl, hheld⟩
    · cases h
  | trim =>
    simp only [work] at h
    split at h
    · next principal hphase =>
      cases h
      have hheld : a.phase.principal = some principal := by rw [hphase]; rfl
      refine ⟨fun e he => .inl he, fun p hp => .inl (hheld.trans ?_)⟩
      split at hp <;> exact hp
    · cases h
  | evict =>
    simp only [work] at h
    split at h
    · next principal hphase =>
      have hheld : a.phase.principal = some principal := by rw [hphase]; rfl
      split at h
      · cases h
        exact ⟨fun e he => .inl he, fun p hp => (by cases hp)⟩
      · cases h
        exact ⟨fun e he => .inl (List.mem_cons_of_mem _ he), fun p hp => .inl (hheld.trans hp)⟩
    · cases h

/-! ## What a key in the configuration gives -/

theorem mem_of_isConfigured {presentedHash : Text} {known : List Text} (h : isConfigured presentedHash known = .ok true) :
    presentedHash ∈ known := by
  induction known with
  | nil => cases h
  | cons k more ih =>
    rw [isConfigured] at h
    split at h
    · cases h
    · split at h
      · next heq => exact heq ▸ List.mem_cons_self
      · exact List.mem_cons_of_mem k (ih h)

/-- With authentication required, a request that has not been asked for in the store is let through
with a configured key only. -/
theorem authenticate_answered {env : Env} {settings : AuthSettings} (hrequired : settings.authRequired = true)
    {apiKeyHeader authorization : Option Text} {p : Principal}
    (h : authenticate env settings apiKeyHeader authorization = .answered (.ok p)) :
    p = configKey ∧ ∃ presented, given (extractKey env apiKeyHeader authorization) = some presented ∧
      env.hashSecret presented ∈ configuredHashes env settings := by
  rw [authenticate, hrequired] at h
  simp only [Bool.not_true, Bool.false_eq_true, if_false] at h
  split at h
  · cases h
  · next presented hgiven =>
    split at h
    · cases h
    · next hknown =>
      cases h
      exact ⟨rfl, presented, hgiven, mem_of_isConfigured hknown⟩
    · cases h

theorem authenticate_asks {env : Env} {settings : AuthSettings} {apiKeyHeader authorization : Option Text}
    {presented : Text} (h : authenticate env settings apiKeyHeader authorization = .asks presented) :
    given (extractKey env apiKeyHeader authorization) = some presented := by
  rw [authenticate] at h
  split at h
  · cases h
  · split at h
    · cases h
    · next hgiven =>
      split at h <;> cases h
      exact hgiven

/-! ## Where a right comes from -/

theorem mem_of_scopeSet_join {scopes : List Text} (hvalid : Gate.isValid scopes = true) {name keyHash held : Text}
    (h : held ∈ ({ name, keyHash, scopes := Gate.joinScopes scopes } : ApiKeyRecord).scopeSet) : held ∈ scopes := by
  rw [ApiKeyRecord.scopeSet, List.mem_dedup, List.mem_filter, List.mem_map] at h
  obtain ⟨⟨piece, hpiece, rfl⟩, hne⟩ := h
  have hvalid' : ∀ scope ∈ scopes, scope ∈ [scopeRead, scopeWrite, scopeAdmin] := by
    simpa only [Gate.isValid, List.all_eq_true, decide_eq_true_eq] using hvalid
  -- no scope holds a comma, and none has a blank at an end
  have hplain : ∀ scope ∈ [scopeRead, scopeWrite, scopeAdmin],
      CodePoint.ofChar ',' ∉ scope ∧ Text.strip scope = scope := by decide
  rw [Gate.joinScopes] at hpiece
  rcases eq_or_ne scopes [] with rfl | hsome
  · obtain rfl : piece = [] := by simpa using hpiece
    exact absurd hne (by decide)
  · rw [List.splitOn_intercalate _ (fun scope hscope => (hplain scope (hvalid' scope hscope)).1) hsome] at hpiece
    rw [(hplain piece (hvalid' piece hpiece)).2]
    exact hpiece

/-- A key with this hash was created with these scopes, and possibly more. -/
def Backed (tr : List GateEvent) (hash : Text) (held : List Text) : Prop :=
  ∃ creator scopes, .minted creator hash scopes ∈ tr ∧ ∀ scope ∈ held, scope ∈ scopes

/-- The request had presented a key from the configuration, or one that had been created with a scope
that grants this one. -/
def Entitled (env : Env) (settings : AuthSettings) (tr : List GateEvent) (r : AuthId) (scope : Text)
    (principal : Principal) : Prop :=
  ∃ presented, [.arrived r (some presented), .granted r scope principal].Sublist tr ∧
    (principal = configKey ∧ env.hashSecret presented ∈ configuredHashes env settings ∨
      ∃ creator scopes, [.minted creator (env.hashSecret presented) scopes, .granted r scope principal].Sublist tr ∧
        ∃ held ∈ scopes, scope ∈ scopeImplies held)

/-- A configured key is used, or the operator creates a key with the scope `admin`. -/
def AdminRoot : GateEvent → Prop
  | .granted _ _ principal => principal = configKey
  | .minted none _ scopes => scopeAdmin ∈ scopes
  | _ => False

/-- What the state shows of the past. -/
structure Traced (env : Env) (settings : AuthSettings) (s : Gate) (tr : List GateEvent) : Prop where
  hashed : ∀ k ∈ s.auth.records, storedHash env k.keyHash = k.keyHash
  records : ∀ k ∈ s.auth.records, Backed tr k.keyHash k.scopeSet
  cached : ∀ e ∈ s.auth.cache, Backed tr e.1 e.2.2.scopes
  held : ∀ r a p, s.auth.call r = some a → a.phase.principal = some p →
    Backed tr (env.hashSecret a.presented) p.scopes
  called : ∀ r a, s.auth.call r = some a → s.arrivals r = some (.asks a.presented)
  asked : ∀ r presented, s.arrivals r = some (.asks presented) → .arrived r (some presented) ∈ tr
  answered : ∀ r p, s.arrivals r = some (.answered (.ok p)) →
    p = configKey ∧ ∃ presented, .arrived r (some presented) ∈ tr ∧
      env.hashSecret presented ∈ configuredHashes env settings

/-- What has been granted and created so far is in order. -/
structure Justified (env : Env) (settings : AuthSettings) (tr : List GateEvent) : Prop where
  granted : ∀ r scope p, .granted r scope p ∈ tr → Entitled env settings tr r scope p
  minted : ∀ r hash scopes, .minted (some r) hash scopes ∈ tr → ∃ p, .granted r scopeAdmin p ∈ tr
  rooted : ∀ r p, .granted r scopeAdmin p ∈ tr →
    p = configKey ∨ ∃ root, AdminRoot root ∧ [root, .granted r scopeAdmin p].Sublist tr

section

variable {env : Env} {settings : AuthSettings} {s s' : Gate} {tr o : List GateEvent}

theorem of_update_some {κ ν : Type*} [DecidableEq κ] {f : κ → Option ν} {i j : κ} {v w : ν}
    (h : Function.update f i (some v) j = some w) : j = i ∧ w = v ∨ f j = some w := by
  by_cases hj : j = i
  · subst hj
    rw [Function.update_self] at h
    exact .inl ⟨rfl, (Option.some.inj h).symm⟩
  · rw [Function.update_of_ne hj] at h
    exact .inr h

theorem Backed.append {hash : Text} {held : List Text} (h : Backed tr hash held) (o : List GateEvent) :
    Backed (tr ++ o) hash held := by
  obtain ⟨creator, scopes, hminted, hsub⟩ := h
  exact ⟨creator, scopes, List.mem_append_left o hminted, hsub⟩

theorem Entitled.append {r : AuthId} {scope : Text} {p : Principal} (h : Entitled env settings tr r scope p)
    (o : List GateEvent) : Entitled env settings (tr ++ o) r scope p := by
  obtain ⟨presented, harrived, hright⟩ := h
  refine ⟨presented, harrived.trans (List.sublist_append_left tr o), hright.imp_right ?_⟩
  rintro ⟨creator, scopes, hminted, himplies⟩
  exact ⟨creator, scopes, hminted.trans (List.sublist_append_left tr o), himplies⟩

theorem Traced.append (h : Traced env settings s tr) (o : List GateEvent) : Traced env settings s (tr ++ o) where
  hashed := h.hashed
  records := fun k hk => (h.records k hk).append o
  cached := fun e he => (h.cached e he).append o
  held := fun r a p ha hp => (h.held r a p ha hp).append o
  called := h.called
  asked := fun r presented hr => List.mem_append_left o (h.asked r presented hr)
  answered := fun r p hr => by
    obtain ⟨hp, presented, harrived, hconfigured⟩ := h.answered r p hr
    exact ⟨hp, presented, List.mem_append_left o harrived, hconfigured⟩

/-- The scopes of a granted principal were given to a key. -/
theorem Traced.answer (h : Traced env settings s tr) {r : AuthId} {p : Principal} (hr : s.answer r = some (.ok p)) :
    ∃ presented, .arrived r (some presented) ∈ tr ∧
      (p = configKey ∧ env.hashSecret presented ∈ configuredHashes env settings ∨
        Backed tr (env.hashSecret presented) p.scopes) := by
  unfold Gate.answer at hr
  split at hr
  · cases hr
  · next result hanswered =>
    cases hr
    obtain ⟨hp, presented, harrived, hconfigured⟩ := h.answered r p hanswered
    exact ⟨presented, harrived, .inl ⟨hp, hconfigured⟩⟩
  · next presented hasks =>
    split at hr
    · next principal hphase =>
      obtain ⟨a, ha, hreturned⟩ := Option.map_eq_some_iff.1 hphase
      have hsame := h.called r a ha
      rw [hasks] at hsame
      cases hsame
      cases principal with
      | none => cases hr
      | some q =>
        cases hr
        exact ⟨a.presented, h.asked r a.presented hasks, .inr (h.held r a p ha (by rw [hreturned]; rfl))⟩
    · cases hr
    · cases hr

theorem Justified.append (h : Justified env settings tr)
    (hgranted : ∀ r scope p, .granted r scope p ∉ o)
    (hminted : ∀ r hash scopes, .minted (some r) hash scopes ∈ o → ∃ p, .granted r scopeAdmin p ∈ tr) :
    Justified env settings (tr ++ o) where
  granted := fun r scope p hmem =>
    (h.granted r scope p ((List.mem_append.1 hmem).resolve_right (hgranted r scope p))).append o
  minted := fun r hash scopes hmem => by
    obtain ⟨p, hp⟩ := (List.mem_append.1 hmem).elim (h.minted r hash scopes) (hminted r hash scopes)
    exact ⟨p, List.mem_append_left o hp⟩
  rooted := fun r p hmem => by
    refine (h.rooted r p ((List.mem_append.1 hmem).resolve_right (hgranted r scopeAdmin p))).imp_right ?_
    rintro ⟨root, hroot, hsub⟩
    exact ⟨root, hroot, hsub.trans (List.sublist_append_left tr o)⟩

/-- Only `admin` grants `admin`. -/
theorem eq_admin_of_implies {held : Text} (h : scopeAdmin ∈ scopeImplies held) : held = scopeAdmin := by
  unfold scopeImplies at h
  split at h
  · assumption
  · split at h
    · exact absurd h (by decide)
    · split at h
      · exact absurd h (by decide)
      · cases h

theorem Justified.grant (h : Justified env settings tr) {r : AuthId} {scope : Text} {p : Principal}
    (hnew : Entitled env settings (tr ++ [.granted r scope p]) r scope p)
    (hold : p = configKey ∨ ∃ creator hash scopes, .minted creator hash scopes ∈ tr ∧
      ∃ held ∈ scopes, scope ∈ scopeImplies held) : Justified env settings (tr ++ [.granted r scope p]) where
  granted := fun r' scope' p' hmem => by
    rcases List.mem_append.1 hmem with hmem | hmem
    · exact (h.granted r' scope' p' hmem).append _
    · cases List.mem_singleton.1 hmem
      exact hnew
  minted := fun r' hash scopes hmem => by
    rcases List.mem_append.1 hmem with hmem | hmem
    · obtain ⟨p', hp'⟩ := h.minted r' hash scopes hmem
      exact ⟨p', List.mem_append_left _ hp'⟩
    · cases List.mem_singleton.1 hmem
  rooted := fun r' p' hmem => by
    rcases List.mem_append.1 hmem with hmem | hmem
    · refine (h.rooted r' p' hmem).imp_right ?_
      rintro ⟨root, hroot, hsub⟩
      exact ⟨root, hroot, hsub.trans (List.sublist_append_left _ _)⟩
    · cases List.mem_singleton.1 hmem
      refine hold.imp_right ?_
      rintro ⟨creator, hash, scopes, hminted, held, hheld, himplies⟩
      have hadmin : scopeAdmin ∈ scopes := eq_admin_of_implies himplies ▸ hheld
      have hafter {root : GateEvent} (hroot : root ∈ tr) :
          [root, .granted r scopeAdmin p].Sublist (tr ++ [.granted r scopeAdmin p]) :=
        two_sublist_snoc.2 (.inr ⟨rfl, List.singleton_sublist.2 hroot⟩)
      -- the key was created by the operator, or for a request that had the scope itself
      cases creator with
      | none => exact ⟨.minted none hash scopes, hadmin, hafter hminted⟩
      | some maker =>
        obtain ⟨q, hq⟩ := h.minted maker hash scopes hminted
        rcases h.rooted maker q hq with hconfig | ⟨root, hroot, hsub⟩
        · exact ⟨.granted maker scopeAdmin q, hconfig, hafter hq⟩
        · exact ⟨root, hroot, hafter (hsub.subset List.mem_cons_self)⟩

/-! ## What one step keeps -/

/-- A change of the store that creates no key and begins no call. -/
theorem Traced.onAuth (h : Traced env settings s tr) {x : AuthStep} (hs : s.onAuth env x = some (s', o))
    (hcreate : ∀ name secret scopes, x ≠ .create name secret scopes)
    (hbegin : ∀ r presented now, x ≠ .begin r presented now) : Traced env settings s' tr := by
  obtain ⟨⟨auth, shown⟩, hstep, heq⟩ := Option.map_eq_some_iff.1 hs
  cases heq
  cases x with
  | create name secret scopes => exact absurd rfl (hcreate name secret scopes)
  | begin r presented now => exact absurd rfl (hbegin r presented now)
  | revoke name =>
    simp only [Authenticator.step] at hstep
    split at hstep
    · cases hstep
      exact h
    · cases hstep
      refine { h with hashed := fun k hk => ?_, records := fun k hk => ?_ }
      all_goals obtain ⟨k₀, hk₀, rfl⟩ := List.mem_map.1 hk
      · rw [apply_ite ApiKeyRecord.keyHash, ite_self]
        exact h.hashed k₀ hk₀
      · have hback := h.records k₀ hk₀
        split <;> exact hback
  | empty =>
    simp only [Authenticator.step, Option.ite_none_left_eq_some, Option.some.injEq, Prod.mk.injEq] at hstep
    obtain ⟨-, rfl, -⟩ := hstep
    exact { h with cached := fun e he => absurd he List.not_mem_nil }
  | clear =>
    simp only [Authenticator.step, Option.ite_none_right_eq_some, Option.some.injEq, Prod.mk.injEq] at hstep
    obtain ⟨-, rfl, -⟩ := hstep
    exact { h with }
  | work i w =>
    simp only [Authenticator.step] at hstep
    split at hstep
    · cases hstep
    · next a ha =>
      split at hstep
      · cases hstep
      · next cache phase hwork =>
        have hsourced := Authentication.work_sourced hwork
        simp only [Option.some.injEq, Prod.mk.injEq] at hstep
        obtain ⟨rfl, -⟩ := hstep
        refine { h with cached := fun e he => ?_, held := fun r b p hb hp => ?_, called := fun r b hb => ?_ }
        · rcases hsourced.entries e he with hold | ⟨hkey, hheld⟩
          · exact h.cached e hold
          · rw [hkey]
            exact h.held i a _ ha hheld
        · rcases of_update_some hb with ⟨rfl, rfl⟩ | hother
          · rcases hsourced.principal p hp with hheld | ⟨e, he, hkey, rfl⟩ | ⟨k, hk, hfits, rfl⟩
            · exact h.held r a p ha hheld
            · exact hkey ▸ h.cached e he
            · have hhash : env.hashSecret a.presented = k.keyHash := by
                rw [← h.hashed k hk]
                simpa [verifySecret] using hfits
              exact hhash ▸ h.records k hk
          · exact h.held r b p hother hp
        · rcases of_update_some hb with ⟨rfl, rfl⟩ | hother
          · exact h.called r a ha
          · exact h.called r b hother

/-- Creating a key, for a request that was let through or for the operator. -/
theorem Traced.create (h : Traced env settings s tr) (hj : Justified env settings tr)
    (hhash : ∀ secret, storedHash env (env.hashSecret secret) = env.hashSecret secret) {creator : Option AuthId}
    {name secret : Text} {scopes : List Text} (hs : s.create env creator name secret scopes = some (s', o))
    (hcreator : ∀ r, creator = some r → ∃ p, .granted r scopeAdmin p ∈ tr) :
    Traced env settings s' (tr ++ o) ∧ Justified env settings (tr ++ o) := by
  unfold Gate.create at hs
  split at hs
  · cases hs
    rw [List.append_nil]
    exact ⟨h, hj⟩
  · next hvalid =>
    rw [Bool.not_eq_true', Bool.not_eq_false] at hvalid
    obtain ⟨⟨auth, shown⟩, hstep, heq⟩ := Option.map_eq_some_iff.1 hs
    simp only [Authenticator.step] at hstep
    split at hstep
    · next hdup =>
      cases hstep
      rw [if_pos hdup] at heq
      cases heq
      rw [List.append_nil]
      exact ⟨h, hj⟩
    · next hnew =>
      cases hstep
      rw [if_neg hnew] at heq
      cases heq
      refine ⟨{ h.append _ with hashed := fun k hk => ?_, records := fun k hk => ?_ },
        hj.append (fun r scope p hmem => ?_) fun r hash scopes' hmem => ?_⟩
      · rcases List.mem_append.1 hk with hk | hk
        · exact h.hashed k hk
        · cases List.mem_singleton.1 hk
          exact hhash secret
      · rcases List.mem_append.1 hk with hk | hk
        · exact (h.records k hk).append _
        · cases List.mem_singleton.1 hk
          exact ⟨creator, scopes, List.mem_append_right tr (List.mem_singleton_self _),
            fun scope hscope => mem_of_scopeSet_join hvalid hscope⟩
      · cases List.mem_singleton.1 hmem
      · cases List.mem_singleton.1 hmem
        exact hcreator r rfl

/-- What is done for a request keeps the order, if it does so once the request is let through. -/
theorem Traced.guarded (h : Traced env settings s tr) (hj : Justified env settings tr) {r : AuthId} {scope : Text}
    {action : Gate → Option (Gate × List GateEvent)} (hs : s.guarded r scope action = some (s', o))
    (haction : ∀ tr' s'' o', Traced env settings s tr' → Justified env settings tr' →
      (∃ p, .granted r scope p ∈ tr') → action s = some (s'', o') →
        Traced env settings s'' (tr' ++ o') ∧ Justified env settings (tr' ++ o')) :
    Traced env settings s' (tr ++ o) ∧ Justified env settings (tr ++ o) := by
  unfold Gate.guarded at hs
  split at hs
  · cases hs
  · next result hanswer =>
    split at hs
    · next refusal _ =>
      cases hs
      exact ⟨h.append _, hj.append (fun r' scope' p hmem => by cases List.mem_singleton.1 hmem)
        fun r' hash scopes hmem => by cases List.mem_singleton.1 hmem⟩
    · next principal hbind =>
      obtain ⟨p, rfl, hrequire⟩ := bind_ok.1 hbind
      rw [requireScope] at hrequire
      split at hrequire
      · next hhas =>
        cases hrequire
        obtain ⟨⟨s'', o'⟩, hact, heq⟩ := Option.map_eq_some_iff.1 hs
        cases heq
        obtain ⟨presented, harrived, hright⟩ := h.answer hanswer
        obtain ⟨held, hheld, himplies⟩ := List.any_eq_true.1 hhas
        rw [decide_eq_true_eq] at himplies
        have hlast {e : GateEvent} (he : e ∈ tr) :
            [e, .granted r scope principal].Sublist (tr ++ [.granted r scope principal]) :=
          two_sublist_snoc.2 (.inr ⟨rfl, List.singleton_sublist.2 he⟩)
        have hgrant : Justified env settings (tr ++ [.granted r scope principal]) := by
          refine hj.grant ⟨presented, hlast harrived, hright.imp_right ?_⟩ (hright.imp And.left ?_)
          · rintro ⟨creator, scopes, hminted, hsub⟩
            exact ⟨creator, scopes, hlast hminted, held, hsub held hheld, himplies⟩
          · rintro ⟨creator, scopes, hminted, hsub⟩
            exact ⟨creator, _, scopes, hminted, held, hsub held hheld, himplies⟩
        rw [List.append_cons]
        exact haction _ _ _ (h.append _) hgrant ⟨principal, by simp⟩ hact
      · cases hrequire

theorem Traced.arrive (h : Traced env settings s tr) (hj : Justified env settings tr)
    (hrequired : settings.authRequired = true) {r : AuthId} {apiKeyHeader authorization : Option Text} {now : ℚ}
    (hs : s.step env settings (.arrive r apiKeyHeader authorization now) = some (s', o)) :
    Traced env settings s' (tr ++ o) ∧ Justified env settings (tr ++ o) := by
  simp only [Gate.step] at hs
  split at hs
  · cases hs
  · next hfree =>
    have hshown (q : Option Text) : Justified env settings (tr ++ [.arrived r q]) :=
      hj.append (fun r' scope p hmem => by cases List.mem_singleton.1 hmem)
        fun r' hash scopes hmem => by cases List.mem_singleton.1 hmem
    -- no call has this number yet
    have hidle (a : Authentication) : s.auth.call r ≠ some a := fun ha => by
      have := h.called r a ha
      rw [hfree] at this
      cases this
    generalize harrival : authenticate env settings apiKeyHeader authorization = arrival at hs
    cases arrival with
    | answered result =>
      cases hs
      refine ⟨{ h.append _ with called := fun r' a ha => ?_, asked := fun r' presented hr => ?_,
                                answered := fun r' p hr => ?_ }, hshown _⟩
      · have hne : r' ≠ r := fun heq => hidle a (heq ▸ ha)
        exact (Function.update_of_ne hne ..).trans (h.called r' a ha)
      · rcases of_update_some hr with ⟨-, heq⟩ | hold
        · cases heq
        · exact List.mem_append_left _ (h.asked r' presented hold)
      · rcases of_update_some hr with ⟨rfl, heq⟩ | hold
        · cases heq
          obtain ⟨hp, presented, hgiven, hconfigured⟩ := authenticate_answered hrequired harrival
          exact ⟨hp, presented, by simp [hgiven], hconfigured⟩
        · exact (h.append _).answered r' p hold
    | asks presented =>
      obtain ⟨⟨auth, shown⟩, hstep, heq⟩ := Option.map_eq_some_iff.1 hs
      cases heq
      simp only [Authenticator.step] at hstep
      split at hstep
      · cases hstep
        have hgiven := authenticate_asks harrival
        refine ⟨{ h.append _ with held := fun r' a p ha hp => ?_, called := fun r' a ha => ?_,
                                  asked := fun r' presented' hr => ?_, answered := fun r' p hr => ?_ }, hshown _⟩
        · rcases of_update_some ha with ⟨rfl, rfl⟩ | hold
          · cases hp
          · exact (h.append _).held r' a p hold hp
        · rcases of_update_some ha with ⟨rfl, rfl⟩ | hold
          · exact Function.update_self ..
          · have hne : r' ≠ r := fun heq => hidle a (heq ▸ hold)
            exact (Function.update_of_ne hne ..).trans (h.called r' a hold)
        · rcases of_update_some hr with ⟨rfl, heq⟩ | hold
          · cases heq
            simp [hgiven]
          · exact List.mem_append_left _ (h.asked r' presented' hold)
        · rcases of_update_some hr with ⟨-, heq⟩ | hold
          · cases heq
          · exact (h.append _).answered r' p hold
      · cases hstep

theorem Traced.step (h : Traced env settings s tr) (hj : Justified env settings tr)
    (hhash : ∀ secret, storedHash env (env.hashSecret secret) = env.hashSecret secret)
    (hrequired : settings.authRequired = true) {x : GateStep} (hs : s.step env settings x = some (s', o)) :
    Traced env settings s' (tr ++ o) ∧ Justified env settings (tr ++ o) := by
  have hquiet {y : AuthStep} {s s'' : Gate} {tr' o' : List GateEvent} (h' : Traced env settings s tr')
      (hj' : Justified env settings tr') (hstep : s.onAuth env y = some (s'', o'))
      (hcreate : ∀ name secret scopes, y ≠ .create name secret scopes)
      (hbegin : ∀ r presented now, y ≠ .begin r presented now) :
      Traced env settings s'' (tr' ++ o') ∧ Justified env settings (tr' ++ o') := by
    have hkept := h'.onAuth hstep hcreate hbegin
    obtain ⟨⟨auth, shown⟩, -, heq⟩ := Option.map_eq_some_iff.1 hstep
    cases heq
    rw [List.append_nil]
    exact ⟨hkept, hj'⟩
  cases x with
  | arrive r apiKeyHeader authorization now => exact h.arrive hj hrequired hs
  | work r w => exact hquiet h hj hs (fun _ _ _ => nofun) fun _ _ _ => nofun
  | empty => exact hquiet h hj hs (fun _ _ _ => nofun) fun _ _ _ => nofun
  | clear => exact hquiet h hj hs (fun _ _ _ => nofun) fun _ _ _ => nofun
  | serve r scope =>
    rw [Gate.step] at hs
    refine h.guarded hj hs fun tr' s'' o' h' hj' _ hact => ?_
    cases hact
    rw [List.append_nil]
    exact ⟨h', hj'⟩
  | mint r name secret scopes =>
    rw [Gate.step] at hs
    refine h.guarded hj hs fun tr' s'' o' h' hj' hgranted hact => h'.create hj' hhash hact fun r' hr' => ?_
    cases hr'
    exact hgranted
  | revoke r name =>
    rw [Gate.step] at hs
    exact h.guarded hj hs fun tr' s'' o' h' hj' _ hact => hquiet h' hj' hact (fun _ _ _ => nofun) fun _ _ _ => nofun
  | operatorMint name secret scopes => exact h.create hj hhash hs fun r hr => by cases hr
  | operatorRevoke name => exact hquiet h hj hs (fun _ _ _ => nofun) fun _ _ _ => nofun

theorem Traced.start : Traced env settings {} [] ∧ Justified env settings [] where
  left :=
    { hashed := fun _ h => absurd h List.not_mem_nil
      records := fun _ h => absurd h List.not_mem_nil
      cached := fun _ h => absurd h List.not_mem_nil
      held := fun _ _ _ h => by cases h
      called := fun _ _ h => by cases h
      asked := fun _ _ h => by cases h
      answered := fun _ _ h => by cases h }
  right :=
    { granted := fun _ _ _ h => absurd h List.not_mem_nil
      minted := fun _ _ _ h => absurd h List.not_mem_nil
      rooted := fun _ _ h => absurd h List.not_mem_nil }

theorem justified_of_run (hhash : ∀ secret, storedHash env (env.hashSecret secret) = env.hashSecret secret)
    (hrequired : settings.authRequired = true) {steps : List GateStep}
    (hrun : runs (Gate.step env settings) {} steps = some (s, tr)) : Justified env settings tr :=
  (runs_inv (fun s tr => Traced env settings s tr ∧ Justified env settings tr)
    (fun _ _ _ _ _ h hs => h.1.step h.2 hhash hrequired hs) Traced.start hrun).2

/-- Whatever the requests, the creations, the revocations and the clearings, a request that is let
through had presented a configured key, or a key that had been created with a scope that grants the
one it needs. -/
theorem granted_entitled (hhash : ∀ secret, storedHash env (env.hashSecret secret) = env.hashSecret secret)
    (hrequired : settings.authRequired = true) {steps : List GateStep}
    (hrun : runs (Gate.step env settings) {} steps = some (s, tr)) {r : AuthId} {scope : Text} {p : Principal}
    (hgranted : .granted r scope p ∈ tr) : Entitled env settings tr r scope p :=
  (justified_of_run hhash hrequired hrun).granted r scope p hgranted

/-- One configured key. -/
def guardedSettings : AuthSettings where
  apiKeyHashes := [Text.ofString " SHA256:E3B0C44298FC1C149AFBF4C8996FB92427AE41E4649B934CA495991B7852B855"]

/-- The configured key creates a key that may write, the key is used to read and to write, and is
turned away where a key is created. -/
def handedDown : List GateStep :=
  [.arrive 0 (some (Text.ofString "root")) none 0, .mint 0 victim victimKey [scopeWrite],
    .arrive 1 none (some (Text.ofString "Bearer " ++ victimKey)) 1, .work 1 .lookup, .work 1 (.verify false),
    .work 1 .insert, .work 1 .trim, .serve 1 scopeRead, .serve 1 scopeWrite,
    .mint 1 (Text.ofString "backdoor") (Text.ofString "other") [scopeAdmin]]

/-- The principal of the key. -/
def handedPrincipal : Principal := ⟨victim, [scopeWrite], Text.ofString "database"⟩

theorem handedDown_run : (runs (Gate.step sampleEnv guardedSettings) {} handedDown).map Prod.snd =
    some [.arrived 0 (some (Text.ofString "root")), .granted 0 scopeAdmin configKey,
      .minted (some 0) victimHash [scopeWrite], .arrived 1 (some victimKey),
      .granted 1 scopeRead handedPrincipal, .granted 1 scopeWrite handedPrincipal,
      .refused 1 (.forbidden scopeAdmin)] := by decide +kernel

theorem granted_entitled_handedDown : ∃ s tr,
    runs (Gate.step sampleEnv guardedSettings) {} handedDown = some (s, tr) ∧
      .granted 1 scopeRead handedPrincipal ∈ tr ∧
        Entitled sampleEnv guardedSettings tr 1 scopeRead handedPrincipal := by
  obtain ⟨⟨s, tr⟩, hrun, htr⟩ := Option.map_eq_some_iff.1 handedDown_run
  change tr = _ at htr
  have hgranted : .granted 1 scopeRead handedPrincipal ∈ tr := by simp [htr]
  exact ⟨s, tr, hrun, hgranted, granted_entitled sampleEnv_hashes rfl hrun hgranted⟩

/-- No chain of keys leads to the scope `admin` from below: before a request is let through to it with
a key from the store, a configured key was used or the operator created a key with that scope. -/
theorem admin_rooted (hhash : ∀ secret, storedHash env (env.hashSecret secret) = env.hashSecret secret)
    (hrequired : settings.authRequired = true) {steps : List GateStep}
    (hrun : runs (Gate.step env settings) {} steps = some (s, tr)) {r : AuthId} {p : Principal}
    (hgranted : .granted r scopeAdmin p ∈ tr) :
    p = configKey ∨ ∃ root, AdminRoot root ∧ [root, .granted r scopeAdmin p].Sublist tr :=
  (justified_of_run hhash hrequired hrun).rooted r p hgranted

/-- The operator creates a key that may do everything, and that key creates another. -/
def operatorFirst : List GateStep :=
  [.operatorMint victim victimKey [scopeAdmin], .arrive 0 (some victimKey) none 0, .work 0 .lookup,
    .work 0 (.verify false), .work 0 .insert, .work 0 .trim,
    .mint 0 (Text.ofString "reader") (Text.ofString "other") [scopeRead]]

theorem operatorFirst_run : (runs (Gate.step sampleEnv {}) {} operatorFirst).map Prod.snd =
    some [.minted none victimHash [scopeAdmin], .arrived 0 (some victimKey),
      .granted 0 scopeAdmin { handedPrincipal with scopes := [scopeAdmin] },
      .minted (some 0) (sampleEnv.hashSecret (Text.ofString "other")) [scopeRead]] := by decide +kernel

theorem admin_rooted_operatorFirst : ∃ s tr p,
    runs (Gate.step sampleEnv {}) {} operatorFirst = some (s, tr) ∧ .granted 0 scopeAdmin p ∈ tr ∧
      (p = configKey ∨ ∃ root, AdminRoot root ∧ [root, .granted 0 scopeAdmin p].Sublist tr) := by
  obtain ⟨⟨s, tr⟩, hrun, htr⟩ := Option.map_eq_some_iff.1 operatorFirst_run
  change tr = _ at htr
  have hgranted : .granted 0 scopeAdmin { handedPrincipal with scopes := [scopeAdmin] } ∈ tr := by simp [htr]
  exact ⟨s, tr, _, hrun, hgranted, admin_rooted sampleEnv_hashes rfl hrun hgranted⟩

end

end LogAnalytics.Api
