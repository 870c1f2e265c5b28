import LogAnalytics.Ingestion.HttpApi
/-!
# Redirects

What a fetch requests, whatever the server answers: where it goes, and what it takes along.
-/

namespace LogAnalytics

@[simp] theorem requests_requested (request : Request) (events : List FetchEvent) :
    requests (.requested request :: events) = request :: requests events := rfl

@[simp] theorem requests_obtained (url : Text) (events : List FetchEvent) :
    requests (.obtained url :: events) = requests events := rfl

@[simp] theorem requests_allowed (url : Text) (events : List FetchEvent) :
    requests (.allowed url :: events) = requests events := rfl

theorem mem_requests {events : List FetchEvent} {request : Request} :
    request ∈ requests events ↔ .requested request ∈ events := by
  rw [requests, List.mem_filterMap]
  constructor
  · rintro ⟨event, hevent, hrequest⟩
    cases event with
    | requested _ => exact Option.some.inj hrequest ▸ hevent
    | obtained _ => cases hrequest
    | allowed _ => cases hrequest
  · exact fun h => ⟨_, h, rfl⟩

namespace ApiSource

variable (lib : UrlLibrary) (s : ApiSource) (hops : Nat → Hop)

/-- Where the answer sends the client, if it is a redirect to a URL that is allowed. -/
def redirectTarget (hop : Hop) (current : Text) : Option Text :=
  match hop.response with
  | .error _ => none
  | .ok r =>
    if r.isRedirect = true ∧ r.location ≠ [] then
      (lib.join current r.location).toOption.filter fun next =>
        (assertUrlAllowed lib hop.resolve s.allowPrivate next).toOption.isSome
    else none

/-- The URLs the server leads to, as long as there are passes left. -/
def redirectChain : Nat → Nat → Text → List Text
  | 0, _, _ => []
  | left + 1, k, current =>
    match redirectTarget lib s (hops k) current with
    | none => []
    | some next => next :: redirectChain left (k + 1) next

variable {lib s hops}

theorem redirectTarget_eq_some {hop : Hop} {current next : Text} :
    redirectTarget lib s hop current = some next ↔ ∃ r, hop.response = .ok r ∧ r.isRedirect = true ∧ r.location ≠ [] ∧
      lib.join current r.location = .ok next ∧ assertUrlAllowed lib hop.resolve s.allowPrivate next = .ok () := by
  unfold redirectTarget
  cases hop.response with
  | error e => simp
  | ok r =>
    by_cases hr : r.isRedirect = true ∧ r.location ≠ []
    · dsimp only
      rw [if_pos hr]
      cases hjoin : lib.join current r.location with
      | error e => simp [Except.toOption, hjoin]
      | ok url =>
        simp only [Except.toOption, Option.filter_some, Option.ite_none_right_eq_some, Option.some.injEq, Except.ok.injEq]
        constructor
        · rintro ⟨hallowed, rfl⟩
          refine ⟨r, rfl, hr.1, hr.2, hjoin, ?_⟩
          cases h : assertUrlAllowed lib hop.resolve s.allowPrivate url with
          | error e => rw [h] at hallowed; cases hallowed
          | ok _ => rfl
        · rintro ⟨_, rfl, -, -, hjoin', hallowed⟩
          rw [hjoin] at hjoin'
          cases hjoin'
          rw [hallowed]
          exact ⟨rfl, rfl⟩
    · dsimp only
      rw [if_neg hr]
      refine iff_of_false nofun ?_
      rintro ⟨_, h, hredirect, hlocation, -⟩
      cases h
      exact hr ⟨hredirect, hlocation⟩

/-- A pass that follows a redirect. -/
theorem fetchFrom_some {k left : Nat} {current next : Text} (h : redirectTarget lib s (hops k) current = some next)
    (params : List (Text × Value)) : fetchFrom lib s hops (left + 1) k current params =
      ((fetchFrom lib s hops left (k + 1) next []).1, .requested (s.request current params) :: .obtained next ::
        .allowed next :: (fetchFrom lib s hops left (k + 1) next []).2) := by
  obtain ⟨r, hresponse, hredirect, hlocation, hjoin, hallowed⟩ := redirectTarget_eq_some.1 h
  rw [fetchFrom, hresponse]
  dsimp only
  rw [if_pos hredirect, if_neg hlocation, hjoin]
  dsimp only
  rw [hallowed]

/-- A pass that follows none is the last: it makes one request, and only what comes with a status
of success is returned. -/
theorem fetchFrom_none (left : Nat) {k : Nat} {current : Text} (h : redirectTarget lib s (hops k) current = none)
    (params : List (Text × Value)) : ∃ rest,
      (fetchFrom lib s hops (left + 1) k current params).2 = .requested (s.request current params) :: rest ∧
      requests rest = [] ∧
      ∀ x, (fetchFrom lib s hops (left + 1) k current params).1 = .ok x →
        ∃ r, (hops k).response = .ok r ∧ r.isRedirect = false ∧ s.content r = .ok x := by
  rw [fetchFrom]
  cases hresponse : (hops k).response with
  | error exn => exact ⟨[], rfl, rfl, nofun⟩
  | ok r =>
    dsimp only
    by_cases hredirect : r.isRedirect = true
    · rw [if_pos hredirect]
      by_cases hlocation : r.location = []
      · rw [if_pos hlocation]
        exact ⟨[], rfl, rfl, nofun⟩
      rw [if_neg hlocation]
      cases hjoin : lib.join current r.location with
      | error exn => exact ⟨[], rfl, rfl, nofun⟩
      | ok next =>
        dsimp only
        cases hallowed : assertUrlAllowed lib (hops k).resolve s.allowPrivate next with
        | error exn => exact ⟨[.obtained next], rfl, rfl, nofun⟩
        | ok _ =>
          have hnext := redirectTarget_eq_some.2 ⟨r, hresponse, hredirect, hlocation, hjoin, hallowed⟩
          rw [h] at hnext
          cases hnext
    · rw [if_neg hredirect]
      exact ⟨[], rfl, rfl, fun x hx => ⟨r, rfl, Bool.eq_false_of_not_eq_true hredirect, hx⟩⟩

theorem redirectChain_none {k : Nat} {current : Text} (h : redirectTarget lib s (hops k) current = none) (left : Nat) :
    redirectChain lib s hops left k current = [] := by
  cases left with
  | zero => rfl
  | succ left => rw [redirectChain, h]

/-- The URLs requested are the given one and those the server leads to. -/
theorem urls_fetchFrom (lib : UrlLibrary) (s : ApiSource) (hops : Nat → Hop) (left k : Nat) (current : Text)
    (params : List (Text × Value)) :
    (requests (fetchFrom lib s hops (left + 1) k current params).2).map Request.url =
      current :: redirectChain lib s hops left k current := by
  induction left generalizing k current params with
  | zero =>
    cases htarget : redirectTarget lib s (hops k) current with
    | none =>
      obtain ⟨rest, hevents, hrest, -⟩ := fetchFrom_none 0 htarget params
      rw [hevents, requests_requested, hrest]
      rfl
    | some next =>
      rw [fetchFrom_some htarget params, fetchFrom]
      rfl
  | succ left ih =>
    cases htarget : redirectTarget lib s (hops k) current with
    | none =>
      obtain ⟨rest, hevents, hrest, -⟩ := fetchFrom_none (left + 1) htarget params
      rw [hevents, requests_requested, hrest, redirectChain_none htarget]
      rfl
    | some next =>
      rw [fetchFrom_some htarget params, redirectChain, htarget]
      exact congrArg (current :: ·) (ih (k + 1) next [])

theorem length_redirectChain_le (left k : Nat) (current : Text) :
    (redirectChain lib s hops left k current).length ≤ left := by
  induction left generalizing k current with
  | zero => exact Nat.le_refl 0
  | succ left ih =>
    rw [redirectChain]
    split
    · exact Nat.zero_le _
    · exact Nat.succ_le_succ (ih _ _)

/-- Right before a request, its URL has become known and has been allowed; only the first URL is
the one given. -/
theorem fetchFrom_allowed (left k : Nat) (current : Text) (params : List (Text × Value)) {before after : List FetchEvent}
    {request : Request} (h : (fetchFrom lib s hops left k current params).2 = before ++ .requested request :: after) :
    before = [] ∧ request.url = current ∨
      ∃ earlier j, before = earlier ++ [.obtained request.url, .allowed request.url] ∧
        assertUrlAllowed lib (hops j).resolve s.allowPrivate request.url = .ok () := by
  induction left generalizing k current params before with
  | zero =>
    rw [fetchFrom] at h
    simp at h
  | succ left ih =>
    cases htarget : redirectTarget lib s (hops k) current with
    | none =>
      obtain ⟨rest, hevents, hrest, -⟩ := fetchFrom_none _ htarget params
      rw [hevents] at h
      rcases before with _ | ⟨event, before⟩
      · cases h
        exact .inl ⟨rfl, rfl⟩
      · -- behind the first event there is no request
        have hin : request ∈ requests rest := mem_requests.2 (by rw [(List.cons.inj h).2]; simp)
        rw [hrest] at hin
        cases hin
    | some next =>
      obtain ⟨r, -, -, -, -, hallowed⟩ := redirectTarget_eq_some.1 htarget
      rw [fetchFrom_some htarget params] at h
      rcases before with _ | ⟨first, _ | ⟨second, _ | ⟨third, before⟩⟩⟩
      · cases h
        exact .inl ⟨rfl, rfl⟩
      · cases h
      · cases h
      · simp only [List.cons_append, List.cons.injEq] at h
        obtain ⟨rfl, rfl, rfl, h⟩ := h
        right
        rcases ih (k + 1) next [] h with ⟨rfl, hurl⟩ | ⟨earlier, j, rfl, hj⟩
        · rw [hurl]
          exact ⟨[.requested (s.request current params)], k, rfl, hallowed⟩
        · exact ⟨.requested (s.request current params) :: .obtained next :: .allowed next :: earlier, j, rfl, hj⟩

/-- What is returned came with the last answer. -/
theorem fetchFrom_ok {left k : Nat} {current : Text} {params : List (Text × Value)} {x : Value × Nat}
    (h : (fetchFrom lib s hops left k current params).1 = .ok x) :
    ∃ r, (hops (k + (redirectChain lib s hops (left - 1) k current).length)).response = .ok r ∧ r.isRedirect = false ∧
      s.content r = .ok x := by
  induction left generalizing k current params with
  | zero =>
    rw [fetchFrom] at h
    cases h
  | succ left ih =>
    rw [Nat.add_sub_cancel]
    cases htarget : redirectTarget lib s (hops k) current with
    | none =>
      obtain ⟨rest, -, -, hok⟩ := fetchFrom_none left htarget params
      rw [redirectChain_none htarget]
      exact hok x h
    | some next =>
      rw [fetchFrom_some htarget params] at h
      cases left with
      | zero =>
        rw [fetchFrom] at h
        cases h
      | succ left =>
        rw [redirectChain, htarget, List.length_cons, Nat.add_comm _ 1, ← Nat.add_assoc]
        exact ih h

theorem content_eq_ok {r : Response} {x : Value × Nat} :
    s.content r = .ok x ↔ r.isSuccess = true ∧ r.size ≤ s.maxBytes ∧ r.json = some x.1 ∧ x.2 = r.size := by
  unfold content
  cases hsuccess : r.isSuccess with
  | false => simp
  | true =>
    by_cases hsize : s.maxBytes < r.size
    · simp [hsize, Nat.not_le.2 hsize]
    · cases hjson : r.json with
      | none => simp [hsize]
      | some body =>
        obtain ⟨value, size⟩ := x
        simp [Nat.le_of_not_lt hsize, Nat.not_lt.2 (Nat.le_of_not_lt hsize), eq_comm]

/-- However the server redirects, a fetch makes at most four requests, goes only where
`assert_url_allowed` let it, and returns the body of a response of success or raises. -/
theorem fetch_within_policy (lib : UrlLibrary) (s : ApiSource) (hops : Nat → Hop) (url : Text)
    (params : List (Text × Value)) :
    (requests (s.fetch lib hops url params).2).length ≤ maxRedirects + 1 ∧
    (∀ before request after, (s.fetch lib hops url params).2 = before ++ .requested request :: after →
      before = [] ∧ request.url = url ∨
        ∃ earlier k, before = earlier ++ [.obtained request.url, .allowed request.url] ∧
          assertUrlAllowed lib (hops k).resolve s.allowPrivate request.url = .ok ()) ∧
    ((∃ exn, (s.fetch lib hops url params).1 = .error exn) ∨
      ∃ r body, (hops ((requests (s.fetch lib hops url params).2).length - 1)).response = .ok r ∧ r.isRedirect = false ∧
        r.isSuccess = true ∧ r.json = some body ∧ (s.fetch lib hops url params).1 = .ok (body, r.size)) := by
  have hlength : (requests (s.fetch lib hops url params).2).length =
      (redirectChain lib s hops maxRedirects 0 url).length + 1 := by
    have hurls := congrArg List.length (urls_fetchFrom lib s hops maxRedirects 0 url params)
    rwa [List.length_map, List.length_cons] at hurls
  refine ⟨?_, fun before request after h => fetchFrom_allowed _ 0 url params h, ?_⟩
  · rw [hlength]
    exact Nat.succ_le_succ (length_redirectChain_le _ _ _)
  · rw [hlength, Nat.add_sub_cancel]
    cases hresult : (s.fetch lib hops url params).1 with
    | error exn => exact .inl ⟨exn, rfl⟩
    | ok x =>
      obtain ⟨r, hresponse, hredirect, hcontent⟩ := fetchFrom_ok hresult
      obtain ⟨hsuccess, -, hjson, hsize⟩ := content_eq_ok.1 hcontent
      rw [Nat.zero_add] at hresponse
      exact .inr ⟨r, x.1, hresponse, hredirect, hsuccess, hjson, by rw [← hsize]⟩

/-! ## Credentials -/

/-- Scheme, host and port of a URL. -/
def origin (lib : UrlLibrary) (url : Text) : Except Exn (Text × Option Text × Nat) := do
  let parts ← lib.urlparse url
  let port ← parts.port
  return (lib.textCase.lower parts.scheme, parts.hostname, effectivePort parts.scheme port)

/-- The configured headers are in no request to another origin than that of the configured URL. -/
def KeepsCredentials (lib : UrlLibrary) (s : ApiSource) (sent : List Request) : Prop :=
  ∀ request ∈ sent, ∀ header ∈ s.headers, header ∈ request.headers → origin lib request.url = origin lib s.url

/-- There are no headers to send, or the server leads to no other origin. -/
def StaysAtOrigin (lib : UrlLibrary) (s : ApiSource) (hops : Nat → Hop) : Prop :=
  s.headers = [] ∨ ∀ url ∈ redirectChain lib s hops maxRedirects 0 s.url, origin lib url = origin lib s.url

theorem mem_setItem_self {α : Type} (d : List (Text × α)) (item : Text × α) : item ∈ setItem d item := by
  unfold setItem
  split
  · next h =>
    obtain ⟨x, hx, hkey⟩ := List.any_eq_true.1 h
    exact List.mem_map.2 ⟨x, hx, if_pos (of_decide_eq_true hkey)⟩
  · exact List.mem_append_right _ List.mem_cons_self

theorem mem_setItem_of_ne {α : Type} {d : List (Text × α)} {item x : Text × α} (hx : x ∈ d) (hne : x.1 ≠ item.1) :
    x ∈ setItem d item := by
  unfold setItem
  split
  · exact List.mem_map.2 ⟨x, hx, if_neg hne⟩
  · exact List.mem_append_left _ hx

theorem mem_foldl_setItem {α : Type} {items : List (Text × α)} (hnodup : (items.map Prod.fst).Nodup) :
    ∀ {d : List (Text × α)} {x : Text × α}, x ∈ items ∨ x ∈ d ∧ x.1 ∉ items.map Prod.fst → x ∈ items.foldl setItem d := by
  induction items with
  | nil =>
    intro d x h
    exact h.elim (fun h => by cases h) And.left
  | cons item items ih =>
    intro d x h
    rw [List.map_cons, List.nodup_cons] at hnodup
    refine ih hnodup.2 ?_
    rcases h with h | ⟨hx, hkeys⟩
    · rcases List.mem_cons.1 h with rfl | h
      · exact .inr ⟨mem_setItem_self d x, hnodup.1⟩
      · exact .inl h
    · rw [List.map_cons, List.mem_cons, not_or] at hkeys
      exact .inr ⟨mem_setItem_of_ne hx hkeys.1, hkeys.2⟩

/-- The client sends every header the source was given. -/
theorem mem_clientHeaders {s : ApiSource} {header : Text × Text} (h : header ∈ s.headers) : header ∈ s.clientHeaders :=
  mem_foldl_setItem s.headers_nodup (.inl h)

/-- Every request is one of the client. -/
theorem headers_fetchFrom (lib : UrlLibrary) (s : ApiSource) (hops : Nat → Hop) (left k : Nat) (current : Text)
    (params : List (Text × Value)) :
    ∀ request ∈ requests (fetchFrom lib s hops left k current params).2, request.headers = s.clientHeaders := by
  induction left generalizing k current params with
  | zero =>
    rw [fetchFrom]
    exact List.forall_mem_nil _
  | succ left ih =>
    cases htarget : redirectTarget lib s (hops k) current with
    | none =>
      obtain ⟨rest, hevents, hrest, -⟩ := fetchFrom_none _ htarget params
      rw [hevents, requests_requested, hrest, List.forall_mem_singleton]
      rfl
    | some next =>
      rw [fetchFrom_some htarget params, requests_requested, List.forall_mem_cons]
      exact ⟨rfl, ih (k + 1) next []⟩

theorem keepsCredentials_fetch_iff (lib : UrlLibrary) (s : ApiSource) (hops : Nat → Hop) (params : List (Text × Value)) :
    KeepsCredentials lib s (requests (s.fetch lib hops s.url params).2) ↔ StaysAtOrigin lib s hops := by
  have hurls := urls_fetchFrom lib s hops maxRedirects 0 s.url params
  have hheaders := headers_fetchFrom lib s hops (maxRedirects + 1) 0 s.url params
  constructor
  · intro h
    rw [StaysAtOrigin, Classical.or_iff_not_imp_left]
    intro hsome url hurl
    obtain ⟨header, hheader⟩ := List.exists_mem_of_ne_nil _ hsome
    have hin : url ∈ (requests (s.fetch lib hops s.url params).2).map Request.url := by
      rw [fetch, hurls]
      exact List.mem_cons_of_mem _ hurl
    obtain ⟨request, hrequest, rfl⟩ := List.mem_map.1 hin
    exact h request hrequest header hheader (hheaders request hrequest ▸ mem_clientHeaders hheader)
  · rintro (hnone | hchain) request hrequest header hheader -
    · rw [hnone] at hheader
      cases hheader
    · have hin : request.url ∈ (requests (s.fetch lib hops s.url params).2).map Request.url := List.mem_map_of_mem hrequest
      rw [fetch, hurls] at hin
      rcases List.mem_cons.1 hin with heq | hin
      · rw [heq]
      · exact hchain _ hin

/-! ## Whole readings -/

theorem mem_callWithRetry {α ε : Type} {call : Nat → Except Exn α × List ε} {event : ε} (left k : Nat)
    (h : event ∈ (callWithRetry call left k).2.2) : ∃ j, event ∈ (call j).2 := by
  induction left generalizing k with
  | zero => cases h
  | succ left ih =>
    rw [callWithRetry] at h
    rcases hcall : call k with ⟨_ | a, events⟩
    · rw [hcall] at h
      dsimp only at h
      split at h
      · rcases List.mem_append.1 h with h | h
        · exact ⟨k, by rw [hcall]; exact h⟩
        · exact ih (k + 1) h
      · exact ⟨k, by rw [hcall]; exact h⟩
    · rw [hcall] at h
      exact ⟨k, by rw [hcall]; exact h⟩

theorem events_foldl_add (items : List Value) (r : Reading) : (items.foldl Reading.add r).events = r.events := by
  induction items generalizing r with
  | nil => rfl
  | cons item items ih =>
    rw [List.foldl_cons, ih]
    cases item <;> rfl

/-- What a reading leaves, its fetches left. -/
theorem mem_readPages {py : Python} {net : Nat → Nat → Hop} {event : FetchEvent} (left page k : Nat)
    (cursor : Option Text) (r : Reading) (h : event ∈ (readPages lib py s net left page k cursor r).2.events) :
    event ∈ r.events ∨ ∃ j params, event ∈ (s.fetch lib (net j) s.url params).2 := by
  induction left generalizing page k cursor r with
  | zero => exact .inl h
  | succ left ih =>
    rw [readPages] at h
    have hcall : ∀ e ∈ (callWithRetry (fun k => s.fetch lib (net k) s.url (s.pageParams page cursor)) fetchAttempts k).2.2,
        ∃ j params, e ∈ (s.fetch lib (net j) s.url params).2 := fun e he => by
      obtain ⟨j, hj⟩ := mem_callWithRetry _ _ he
      exact ⟨j, _, hj⟩
    have hstep : ∀ events : List FetchEvent, (∀ e ∈ events, ∃ j params, e ∈ (s.fetch lib (net j) s.url params).2) →
        event ∈ r.events ++ events → event ∈ r.events ∨ ∃ j params, event ∈ (s.fetch lib (net j) s.url params).2 :=
      fun events hevents hevent => (List.mem_append.1 hevent).imp_right (hevents event)
    rcases hresult : callWithRetry (fun k => s.fetch lib (net k) s.url (s.pageParams page cursor)) fetchAttempts k with
      ⟨exn | ⟨body, size⟩, k', events⟩
    · rw [hresult] at h hcall
      exact hstep events hcall h
    · rw [hresult] at h hcall
      dsimp only at h
      split at h
      · exact hstep events hcall h
      split at h
      · exact hstep events hcall h
      split at h
      · rw [events_foldl_add] at h
        exact hstep events hcall h
      split at h
      · rw [events_foldl_add] at h
        exact hstep events hcall h
      · rcases ih _ _ _ _ h with h | h
        · rw [events_foldl_add] at h
          exact hstep events hcall h
        · exact .inr h

theorem mem_read {py : Python} {net : Nat → Nat → Hop} {request : Request}
    (h : request ∈ requests (s.read lib py net).2.events) :
    ∃ j params, request ∈ requests (s.fetch lib (net j) s.url params).2 := by
  rcases mem_readPages _ _ _ _ _ (mem_requests.1 h) with hnil | ⟨j, params, hevent⟩
  · cases hnil
  · exact ⟨j, params, mem_requests.2 hevent⟩

/-- A fetch shows the configured headers to no other origin exactly if there are none or no redirect
leads elsewhere; a reading whose fetches all stay at the origin shows them to none either. -/
theorem credentials_stay_iff (lib : UrlLibrary) (s : ApiSource) :
    (∀ hops params, KeepsCredentials lib s (requests (s.fetch lib hops s.url params).2) ↔ StaysAtOrigin lib s hops) ∧
    ∀ py net, (∀ k, StaysAtOrigin lib s (net k)) → KeepsCredentials lib s (requests (s.read lib py net).2.events) := by
  refine ⟨keepsCredentials_fetch_iff lib s, fun py net hstays request hrequest => ?_⟩
  obtain ⟨j, params, hin⟩ := mem_read hrequest
  exact (keepsCredentials_fetch_iff lib s (net j) params).2 (hstays j) request hin

/-! A server that sends the client elsewhere. -/

def logsUrl : Text := Text.ofString "https://logs.example/"

def otherUrl : Text := Text.ofString "https://other.example/"

/-- The library, at two URLs. -/
def exampleLibrary : UrlLibrary where
  textCase := asciiCase
  urlparse url :=
    .ok {
      scheme := Text.ofString "https"
      hostname := some (Text.ofString (if url = logsUrl then "logs.example" else "other.example"))
      port := .ok none }
  ipAddress _ := some {}
  join _ location := .ok location

def exampleSource : ApiSource where
  url := logsUrl
  headers := [(Text.ofString "Authorization", Text.ofString "Bearer t")]

def exampleHops (k : Nat) : Hop where
  response := .ok (if k = 0 then { status := 302, location := otherUrl } else { status := 200, json := some (.list []) })
  resolve _ _ := .ok [Text.ofString "93.184.216.34"]

theorem credentials_follow_redirect :
    ¬ KeepsCredentials exampleLibrary exampleSource
      (requests (exampleSource.fetch exampleLibrary exampleHops exampleSource.url []).2) := by
  intro h
  have hsent : exampleSource.request otherUrl [] ∈
      requests (exampleSource.fetch exampleLibrary exampleHops exampleSource.url []).2 :=
    List.mem_cons_of_mem _ List.mem_cons_self
  have horigin := h _ hsent _ List.mem_cons_self (mem_clientHeaders List.mem_cons_self)
  have hhost := congrArg (fun x => (x.toOption.bind fun y => y.2.1)) horigin
  revert hhost
  decide

end ApiSource

end LogAnalytics
