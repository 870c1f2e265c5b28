import LogAnalytics.Parsers.Coerce
/-!
# Pulling records over HTTP

`ApiSource`: `assert_url_allowed`, one `_fetch` with the redirects it follows by hand, and `read`,
which fetches page after page with one client. The network is an argument: what it answers to each
request, and what it resolves names to at that time. A fetch leaves a trace.
-/

namespace LogAnalytics

/-! ## URLs -/

/-- What `ipaddress` says of an address. -/
structure AddressKind where
  isPrivate : Bool := false
  isLoopback : Bool := false
  isLinkLocal : Bool := false
  isMulticast : Bool := false
  isReserved : Bool := false
  isUnspecified : Bool := false

/-- `urlparse(url)`; reading the port may raise a `ValueError`. -/
structure UrlParts where
  scheme : Text
  hostname : Option Text
  port : Except Exn (Option Nat)

/-- The standard library and `httpx`, as far as URLs go. -/
structure UrlLibrary where
  textCase : TextCase
  urlparse : Text → Except Exn UrlParts
  /-- `ipaddress.ip_address`; `none` is a `ValueError`. -/
  ipAddress : Text → Option AddressKind
  /-- `str(httpx.URL(current).join(location))` -/
  join : Text → Text → Except Exn Text

/-- `socket.getaddrinfo` at some time: the addresses of a host. -/
abbrev Resolver := Text → Nat → Except Exn (List Text)

/-- `ALLOWED_SCHEMES` -/
def allowedSchemes : List Text := ["http", "https"].map Text.ofString

/-- `MAX_REDIRECTS` -/
def maxRedirects : Nat := 3

/-- `MAX_PAGES` -/
def maxPages : Nat := 10000

def securityError (msg : String) : Exn := ⟨.other "SecurityError", msg⟩

def isPublicAddress (lib : UrlLibrary) (address : Text) : Bool :=
  (lib.ipAddress address).any fun ip =>
    !(ip.isPrivate || ip.isLoopback || ip.isLinkLocal || ip.isMulticast || ip.isReserved || ip.isUnspecified)

/-- `port or (443 if scheme == "https" else 80)` -/
def effectivePort (scheme : Text) (port : Option Nat) : Nat :=
  (port.filter (· ≠ 0)).getD (if scheme = Text.ofString "https" then 443 else 80)

def assertUrlAllowed (lib : UrlLibrary) (resolve : Resolver) (allowPrivate : Bool) (url : Text) : Except Exn Unit := do
  let parts ← lib.urlparse url
  if lib.textCase.lower parts.scheme ∉ allowedSchemes then
    .error (securityError "only http and https URLs may be ingested")
  else
    match parts.hostname with
    | none | some [] => .error (securityError "the source URL has no host")
    | some host =>
      if allowPrivate then .ok ()
      else
        let port ← parts.port
        match resolve host (effectivePort parts.scheme port) with
        | .error exn =>
          .error (if exn.cls = .other "gaierror" then ⟨.ingestionError, "could not resolve the source host"⟩ else exn)
        | .ok [] => .error ⟨.ingestionError, "the source host resolved to no addresses"⟩
        | .ok addresses =>
          if addresses.all (isPublicAddress lib) then .ok ()
          else .error (securityError "the source host resolves to a private or reserved address; set ingestion.allow_private_network_sources to permit this")

/-! ## One fetch -/

structure Response where
  status : Nat
  /-- The `Location` header; empty where there is none. -/
  location : Text := []
  /-- The length of the body in bytes. -/
  size : Nat := 0
  /-- The decoded body; `none` is a `ValueError`. -/
  json : Option Value := none

/-- `response.is_redirect` -/
def Response.isRedirect (r : Response) : Bool := 300 ≤ r.status && r.status ≤ 399

/-- `raise_for_status` raises nothing. -/
def Response.isSuccess (r : Response) : Bool := 200 ≤ r.status && r.status ≤ 299

structure Request where
  method : Text
  url : Text
  params : List (Text × Value)
  headers : List (Text × Text)

/-- What happens around one request: the answer, and how names resolve when it has arrived. -/
structure Hop where
  response : Except Exn Response
  resolve : Resolver

inductive FetchEvent where
  | requested (request : Request)
  /-- The target of a redirect is known. -/
  | obtained (url : Text)
  /-- `assert_url_allowed` returned. -/
  | allowed (url : Text)

/-- The headers given to a source are a `dict`. -/
structure ApiSource where
  url : Text
  method : Text := Text.ofString "GET"
  headers : List (Text × Text) := []
  headers_nodup : (headers.map Prod.fst).Nodup := by decide
  params : List (Text × Value) := []
  recordsPath : Text := []
  nextCursorPath : Text := []
  cursorParam : Text := Text.ofString "cursor"
  pageParam : Option Text := none
  maxPages : Nat := 100
  maxBytes : Nat := 256 * 1024 * 1024
  allowPrivate : Bool := false

namespace ApiSource

/-- `d[key] = value` of a `dict`. -/
def setItem {α : Type} (d : List (Text × α)) (item : Text × α) : List (Text × α) :=
  if d.any (·.1 = item.1) then d.map fun x => if x.1 = item.1 then item else x else d ++ [item]

/-- `{"Accept": "application/json", **self.headers}`: the headers of the client, which sends
them with every request. -/
def clientHeaders (s : ApiSource) : List (Text × Text) :=
  s.headers.foldl setItem [(Text.ofString "Accept", Text.ofString "application/json")]

/-- `client.request(self.method, url, params=params)` -/
def request (s : ApiSource) (url : Text) (params : List (Text × Value)) : Request :=
  { method := s.method, url := url, params := params, headers := s.clientHeaders }

def tooManyRedirects : Exn := ⟨.ingestionError, "too many redirects"⟩

/-- What is made of a response that is no redirect: the body and its size. -/
def content (s : ApiSource) (r : Response) : Except Exn (Value × Nat) :=
  if !r.isSuccess then .error ⟨.other "HTTPStatusError", s!"status {r.status}"⟩
  else if s.maxBytes < r.size then .error ⟨.ingestionError, "API response body exceeds the byte limit"⟩
  else
    match r.json with
    | some body => .ok (body, r.size)
    | none => .error ⟨.ingestionError, "API response is not valid JSON"⟩

/-- The loop of `_fetch`, with the passes that are left. -/
def fetchFrom (lib : UrlLibrary) (s : ApiSource) (hops : Nat → Hop) :
    Nat → Nat → Text → List (Text × Value) → Except Exn (Value × Nat) × List FetchEvent
  | 0, _, _, _ => (.error tooManyRedirects, [])
  | left + 1, k, current, params =>
    let sent := FetchEvent.requested (s.request current params)
    match (hops k).response with
    | .error exn => (.error exn, [sent])
    | .ok response =>
      if response.isRedirect then
        if response.location = [] then (.error tooManyRedirects, [sent])
        else
          match lib.join current response.location with
          | .error exn => (.error exn, [sent])
          | .ok next =>
            match assertUrlAllowed lib (hops k).resolve s.allowPrivate next with
            | .error exn => (.error exn, [sent, .obtained next])
            | .ok () =>
              -- The parameters belong to the first request only.
              let (result, events) := fetchFrom lib s hops left (k + 1) next []
              (result, sent :: .obtained next :: .allowed next :: events)
      else (s.content response, [sent])

/-- `_fetch` -/
def fetch (lib : UrlLibrary) (s : ApiSource) (hops : Nat → Hop) (url : Text) (params : List (Text × Value)) :
    Except Exn (Value × Nat) × List FetchEvent :=
  fetchFrom lib s hops (maxRedirects + 1) 0 url params

end ApiSource

/-- The requests of a trace. -/
def requests (events : List FetchEvent) : List Request :=
  events.filterMap fun
    | .requested request => some request
    | .obtained _ | .allowed _ => none

/-! ## Pages -/

/-- `bool(value)` -/
def Value.isTruthy : Value → Bool
  | .none => false
  | .bool b => b
  | .int z => z ≠ 0
  | .float (.finite q) => q ≠ 0
  | .float _ | .datetime _ => true
  | .str text => text ≠ []
  | .list items => !items.isEmpty
  | .dict items => !items.isEmpty

/-- `_extract` -/
def extract (payload : Value) (path : Text) : Value :=
  if path = [] then payload
  else
    (path.splitOn (Timeutil.char '.')).foldl (fun current part =>
      match current with
      | .dict items => (Dict.get? items part).getD .none
      | _ => .none) payload

/-- `RetryPolicy.attempts` of `read`. -/
def fetchAttempts : Nat := 3

/-- `policy.should_retry`: transport errors, error statuses and timeouts. -/
def isTransient (exn : Exn) : Bool :=
  exn.cls = .other "TransportError" || exn.cls = .other "HTTPStatusError" || exn.cls = .other "TimeoutError"

/-- `call_with_retry`: the result, the calls made and what they left. -/
def callWithRetry {α ε : Type} (call : Nat → Except Exn α × List ε) : Nat → Nat → Except Exn α × Nat × List ε
  | 0, k => (.error ⟨.other "RetryExhaustedError", "failed after 3 attempts"⟩, k, [])
  | left + 1, k =>
    match call k with
    | (.ok a, events) => (.ok a, k + 1, events)
    | (.error exn, events) =>
      if isTransient exn then
        let (result, k, more) := callWithRetry call left (k + 1)
        (result, k, events ++ more)
      else (.error exn, k + 1, events)

namespace ApiSource

/-- The parameters of a page. -/
def pageParams (s : ApiSource) (page : Nat) (cursor : Option Text) : List (Text × Value) :=
  match cursor, s.pageParam.filter (· ≠ []) with
  | some cursor, _ => setItem s.params (s.cursorParam, .str cursor)
  | none, some name => setItem s.params (name, .int (page + 1))
  | none, none => s.params

/-- The records of a page; `none` ends the reading. -/
def pageRecords (s : ApiSource) (body : Value) : Option (List Value) :=
  match extract body s.recordsPath with
  | .dict items => some [.dict items]
  | .list [] => none
  | .list items => some items
  | _ => none

/-- What a reading has done. -/
structure Reading where
  records : List Dict := []
  errors : Nat := 0
  bytesRead : Nat := 0
  events : List FetchEvent := []

/-- Records are objects; anything else is counted. -/
def Reading.add (r : Reading) (item : Value) : Reading :=
  match item with
  | .dict record => { r with records := r.records ++ [record] }
  | _ => { r with errors := r.errors + 1 }

/-- The loop of `read`, with the pages that are left; `net k` is the network during the `k`-th
fetch. -/
def readPages (lib : UrlLibrary) (py : Python) (s : ApiSource) (net : Nat → Nat → Hop) :
    Nat → Nat → Nat → Option Text → Reading → Except Exn Unit × Reading
  | 0, _, _, _, r => (.ok (), r)
  | left + 1, page, k, cursor, r =>
    match callWithRetry (fun k => s.fetch lib (net k) s.url (s.pageParams page cursor)) fetchAttempts k with
    | (.error exn, _, events) => (.error exn, { r with events := r.events ++ events })
    | (.ok (body, size), k, events) =>
      let r := { r with events := r.events ++ events, bytesRead := r.bytesRead + size }
      if s.maxBytes < r.bytesRead then (.error ⟨.ingestionError, "API response exceeded the configured byte limit"⟩, r)
      else
        match s.pageRecords body with
        | none => (.ok (), r)
        | some items =>
          let r := items.foldl Reading.add r
          let next := extract body s.nextCursorPath
          let cursor := if s.nextCursorPath ≠ [] ∧ next.isTruthy then (py.str next).map some else .ok none
          match cursor with
          | .error exn => (.error exn, r)
          | .ok cursor =>
            if cursor.all (· = []) ∧ s.pageParam.all (· = []) then (.ok (), r)
            else readPages lib py s net left (page + 1) k cursor r

/-- `read` -/
def read (lib : UrlLibrary) (py : Python) (s : ApiSource) (net : Nat → Nat → Hop) : Except Exn Unit × Reading :=
  readPages lib py s net (min s.maxPages LogAnalytics.maxPages) 0 0 none {}

end ApiSource

end LogAnalytics
