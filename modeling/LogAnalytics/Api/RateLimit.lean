import Mathlib.Algebra.Order.Floor.Defs
import Mathlib.Data.Rat.Floor
import LogAnalytics.Lib.TokenBucket
import LogAnalytics.Models.Text
/-!
# Rate limiting

`RateLimitMiddleware` with its `TokenBucketLimiter`, and the key a request is counted under. The
clock is `time.monotonic`; its readings are exact here. SHA-256 and the address arithmetic of
`ipaddress` are parameters.

The key comes from the header before anyone has looked whether the credential is any good, so a
caller has as many buckets as it makes up credentials. `rate_limit_bound` is the bound for the
requests that share one.
-/
open LogAnalytics.Lib

namespace LogAnalytics.Api

/-- The part of `Settings.api` the limiter reads. -/
structure ApiSettings where
  rateLimitRequests : Nat := 120
  rateLimitWindowSeconds : Nat := 60
  rateLimitBurst : Nat := 20
  trustedProxies : List Text := []

structure Request where
  path : Text
  /-- `request.client.host`. -/
  client : Option Text
  xApiKey : Option Text := none
  authorization : Option Text := none
  xForwardedFor : Option Text := none
  /-- The clock when the limiter looks at it. -/
  now : ℚ

structure Env where
  textCase : TextCase
  /-- `sha256(...).hexdigest()` -/
  hashSecret : Text → Text
  /-- `_address_in` -/
  addressIn : Text → List Text → Bool

section

variable (env : Env) (api : ApiSettings)

/-- A header that is missing or empty is falsy. -/
def given (header : Option Text) : Option Text := header.filter (· ≠ [])

def extractKey (apiKeyHeader authorization : Option Text) : Option Text :=
  match given apiKeyHeader, given authorization with
  | some header, _ => some (Text.strip header)
  | none, some header =>
    if Text.ofString "bearer " <+: env.textCase.lower header then some (Text.strip (header.drop 7)) else none
  | none, none => none

def clientIdentity (request : Request) : Text :=
  let peer := request.client.getD (Text.ofString "unknown")
  if api.trustedProxies ≠ [] ∧ env.addressIn peer api.trustedProxies then
    match given request.xForwardedFor with
    | some forwarded => (Text.strip (forwarded.takeWhile (· ≠ CodePoint.ofChar ','))).take 64
    | none => peer
  else peer

/-- What the request presents, if anything: an empty credential counts as none. -/
def presented (request : Request) : Option Text := given (extractKey env request.xApiKey request.authorization)

/-- The key for a credential, or without one for an address. -/
def keyFor (address : Text) : Option Text → Text
  | some credential => Text.ofString "key:" ++ (env.hashSecret credential).take 16
  | none => Text.ofString "ip:" ++ address

def rateLimitKey (request : Request) : Text := keyFor env (clientIdentity env api request) (presented env request)

end

/-! ## The limiter -/

/-- What `check` answers. -/
structure Answer where
  allowed : Bool
  retryAfter : ℚ
  remaining : Int
  deriving DecidableEq

structure TokenBucketLimiter where
  ratePerSecond : ℚ
  capacity : ℚ
  maxKeys : Nat := 10000
  /-- Least recently used first. -/
  buckets : List (Text × Bucket ℚ) := []

namespace TokenBucketLimiter

def fromSettings (api : ApiSettings) : TokenBucketLimiter where
  ratePerSecond := api.rateLimitRequests / max api.rateLimitWindowSeconds 1
  capacity := api.rateLimitRequests + api.rateLimitBurst

/-- Entries over the limit are dropped from the front. -/
def evict (maxKeys : Nat) (buckets : List (Text × Bucket ℚ)) : List (Text × Bucket ℚ) :=
  buckets.drop (buckets.length - maxKeys)

/-- The table holds the bucket itself, so it sees the tokens that are taken after the insertion. -/
def check (l : TokenBucketLimiter) (key : Text) (now : ℚ) : Answer × TokenBucketLimiter :=
  let found := l.buckets.lookup key
  let bucket := Bucket.arrive l.ratePerSecond l.capacity now found
  let r := bucket.take 1
  let buckets := match found with
    | none => evict l.maxKeys (l.buckets ++ [(key, r.2)])
    | some _ => l.buckets.filter (·.1 ≠ key) ++ [(key, r.2)]
  let deficit := 1 - bucket.tokens
  (if r.1 then ⟨true, 0, ⌊r.2.tokens⌋⟩ else ⟨false, if l.ratePerSecond ≠ 0 then deficit / l.ratePerSecond else 60, 0⟩,
    { l with buckets := buckets })

end TokenBucketLimiter

/-! ## The middleware -/

/-- `EXEMPT_PATHS` -/
def exemptPaths : List Text := ["/health", "/health/live", "/health/ready", "/metrics"].map Text.ofString

inductive Response where
  /-- The application's own response. -/
  | exempt
  /-- The application's response, with `X-RateLimit-Limit` and `X-RateLimit-Remaining`. -/
  | passed (limit : Nat) (remaining : Int)
  /-- 429, with `Retry-After`, `X-RateLimit-Limit` and nothing remaining. -/
  | limited (retryAfter : Int) (limit : Nat)
  deriving DecidableEq

section

variable (env : Env) (api : ApiSettings)

def dispatch (l : TokenBucketLimiter) (request : Request) : Response × TokenBucketLimiter :=
  if request.path ∈ exemptPaths then (.exempt, l)
  else
    match l.check (rateLimitKey env api request) request.now with
    | (⟨true, _, remaining⟩, l) => (.passed api.rateLimitRequests remaining, l)
    | (⟨false, retryAfter, _⟩, l) => (.limited (max 1 (⌊retryAfter⌋ + 1)) api.rateLimitRequests, l)

/-- The requests in the order the limiter sees them, with the responses. -/
def serve : TokenBucketLimiter → List Request → List (Request × Response)
  | _, [] => []
  | l, request :: requests =>
    let r := dispatch env api l request
    (request, r.1) :: serve r.2 requests

end

/-- How many requests to limited paths the middleware admits from `t` to `e`. -/
def admittedIn (t e : ℚ) (responses : List (Request × Response)) : Nat :=
  responses.countP fun r =>
    (match r.2 with
      | .passed .. => true
      | _ => false) && decide (t ≤ r.1.now) && decide (r.1.now ≤ e)

/-! ## One credential, one bucket -/

variable {env : Env} {api : ApiSettings}

/-- The limiter when only one key has been counted so far. -/
def TokenBucketLimiter.counting (api : ApiSettings) (key : Text) (bucket : Option (Bucket ℚ)) : TokenBucketLimiter :=
  { fromSettings api with buckets := bucket.toList.map (key, ·) }

/-- There, the limiter is that bucket. -/
theorem check_counting (api : ApiSettings) (key : Text) (bucket : Option (Bucket ℚ)) (now : ℚ) :
    let l := TokenBucketLimiter.counting api key bucket
    let r := Bucket.check l.ratePerSecond l.capacity 1 now bucket
    (l.check key now).1.allowed = r.1 ∧ (l.check key now).2 = .counting api key (some r.2) := by
  intro l r
  have hlookup : l.buckets.lookup key = bucket := by
    cases bucket <;> simp [l, TokenBucketLimiter.counting]
  constructor
  · simp only [TokenBucketLimiter.check, hlookup, r, Bucket.check]
    split
    · next h => exact h.symm
    · next h => exact (Bool.not_eq_true _ ▸ h : _ = false).symm
  · simp only [TokenBucketLimiter.check, hlookup, r, Bucket.check]
    cases bucket <;> simp [l, TokenBucketLimiter.counting, TokenBucketLimiter.fromSettings, TokenBucketLimiter.evict]

theorem dispatch_exempt {l : TokenBucketLimiter} {request : Request} (h : request.path ∈ exemptPaths) :
    dispatch env api l request = (.exempt, l) := if_pos h

/-- A request to a limited path is admitted when the limiter allows it. -/
theorem dispatch_limited (env : Env) (api : ApiSettings) {l : TokenBucketLimiter} {request : Request}
    (h : request.path ∉ exemptPaths) :
    (dispatch env api l request).2 = (l.check (rateLimitKey env api request) request.now).2 ∧
      ((match (dispatch env api l request).1 with
        | .passed .. => true
        | _ => false) = (l.check (rateLimitKey env api request) request.now).1.allowed) := by
  rw [dispatch, if_neg h]
  obtain ⟨⟨allowed, retryAfter, remaining⟩, l'⟩ := l.check (rateLimitKey env api request) request.now
  cases allowed <;> exact ⟨rfl, rfl⟩

/-- The clock readings of the requests that are limited. -/
def limitedTimes (requests : List Request) : List ℚ := (requests.filter (·.path ∉ exemptPaths)).map (·.now)

/-- Counting the requests of one key is counting what its bucket lets through. -/
theorem admittedIn_serve (t e : ℚ) (key : Text) (requests : List Request) :
    ∀ bucket, (∀ r ∈ requests, r.path ∉ exemptPaths → rateLimitKey env api r = key) →
      admittedIn t e (serve env api (.counting api key bucket) requests) =
        Bucket.passed t e (Bucket.admitted (TokenBucketLimiter.fromSettings api).ratePerSecond
          (TokenBucketLimiter.fromSettings api).capacity 1 bucket (limitedTimes requests)) := by
  induction requests with
  | nil => intro bucket _; rfl
  | cons request requests ih =>
    intro bucket hkey
    have hrest := fun bucket => ih bucket fun r hr => hkey r (List.mem_cons_of_mem _ hr)
    by_cases hexempt : request.path ∈ exemptPaths
    · rw [serve, dispatch_exempt hexempt, admittedIn, List.countP_cons_of_neg (by simp), ← admittedIn, hrest]
      rw [limitedTimes, limitedTimes, List.filter_cons_of_neg (by simpa using hexempt)]
    · obtain ⟨hstate, hallowed⟩ := dispatch_limited env api
        (l := .counting api key bucket) hexempt
      obtain ⟨hbool, hnext⟩ := check_counting api key bucket request.now
      rw [hkey request List.mem_cons_self hexempt] at hstate hallowed
      rw [serve, hstate, hnext, admittedIn, List.countP_cons, ← admittedIn, hrest]
      simp only [hallowed, hbool]
      have htimes : limitedTimes (request :: requests) = request.now :: limitedTimes requests := by
        rw [limitedTimes, List.filter_cons_of_pos (by simpa using hexempt)]
        rfl
      rw [htimes, Bucket.admitted, Bucket.passed, Bucket.passed, List.countP_cons]
      rfl

/-- A peer that is no trusted proxy is counted under its own address. -/
theorem clientIdentity_untrusted {request : Request} {peer : Text} (hpeer : request.client = some peer)
    (huntrusted : env.addressIn peer api.trustedProxies = false) : clientIdentity env api request = peer := by
  rw [clientIdentity, hpeer]
  simp [huntrusted]

/-- What one peer gets admitted in `T` seconds with one credential, or without any. -/
theorem rate_limit_bound (requests : List Request) (peer : Text) (credential : Option Text)
    (hpeer : ∀ r ∈ requests, r.client = some peer) (huntrusted : env.addressIn peer api.trustedProxies = false)
    (hclock : requests.Pairwise (·.now ≤ ·.now))
    (hsame : ∀ r ∈ requests, r.path ∉ exemptPaths → presented env r = credential) (t : ℚ) {T : ℚ} (hT : 0 ≤ T) :
    let l := TokenBucketLimiter.fromSettings api
    admittedIn t (t + T) (serve env api l requests) ≤ l.capacity + l.ratePerSecond * T := by
  intro l
  have hkey : ∀ r ∈ requests, r.path ∉ exemptPaths → rateLimitKey env api r = keyFor env peer credential := by
    intro r hr hpath
    rw [rateLimitKey, clientIdentity_untrusted (hpeer r hr) huntrusted, hsame r hr hpath]
  have hcount := admittedIn_serve t (t + T) _ requests none hkey
  have hsorted : (limitedTimes requests).Pairwise (· ≤ ·) :=
    List.pairwise_map.2 (hclock.filter _)
  have hrate : 0 ≤ l.ratePerSecond := by
    simp only [l, TokenBucketLimiter.fromSettings]
    positivity
  have hcap : 0 ≤ l.capacity := by
    simp only [l, TokenBucketLimiter.fromSettings]
    positivity
  have hbound := Bucket.passed_le hrate hcap zero_le_one t hT (limitedTimes requests) none (by simp) hsorted
  rw [mul_one, mul_comm T] at hbound
  calc (admittedIn t (t + T) (serve env api l requests) : ℚ)
      = Bucket.passed t (t + T) (Bucket.admitted l.ratePerSecond l.capacity 1 none (limitedTimes requests)) := by
        exact_mod_cast hcount
    _ ≤ l.capacity + l.ratePerSecond * T := hbound

/-! ## Two made-up credentials -/

/-- SHA-256 of the two credentials used below. -/
def spelledHash (secret : Text) : Text :=
  if secret = Text.ofString "a" then Text.ofString "ca978112ca1bbdcafac231b39a23dc4da786eff8147c4e72b9807785afee48bb"
  else if secret = Text.ofString "b" then
    Text.ofString "3e23e8160039594a33894f6564e1b1348bbd7a0088d42c4acb73eeaed59c009d"
  else []

def plainEnv : Env := ⟨asciiCase, spelledHash, fun _ _ => false⟩

/-- One request a minute, no burst, no proxies. -/
def oneAMinute : ApiSettings := { rateLimitRequests := 1, rateLimitBurst := 0 }

def attacker : Text := Text.ofString "203.0.113.9"

def guess (key : String) (now : ℚ) : Request where
  path := Text.ofString "/logs"
  client := some attacker
  xApiKey := some (Text.ofString key)
  now := now

theorem rate_limit_bound_repeated :
    admittedIn 0 (0 + 30) (serve plainEnv oneAMinute (.fromSettings oneAMinute) [guess "a" 0, guess "a" 30]) ≤
      (TokenBucketLimiter.fromSettings oneAMinute).capacity +
        (TokenBucketLimiter.fromSettings oneAMinute).ratePerSecond * 30 :=
  rate_limit_bound [guess "a" 0, guess "a" 30] attacker (some (Text.ofString "a")) (by simp [guess]) rfl
    (by simp [guess])
    (by
      intro r hr _
      simp only [List.mem_cons, List.not_mem_nil, or_false] at hr
      rcases hr with rfl | rfl <;> decide)
    0 (by norm_num)

/-- With a new credential each time both requests get through at once. -/
theorem rotated_credentials_exceed :
    (∀ r ∈ [guess "a" 0, guess "b" 0], r.client = some attacker) ∧
    plainEnv.addressIn attacker oneAMinute.trustedProxies = false ∧
    ¬(admittedIn 0 (0 + 0) (serve plainEnv oneAMinute (.fromSettings oneAMinute) [guess "a" 0, guess "b" 0]) ≤
      (TokenBucketLimiter.fromSettings oneAMinute).capacity +
        (TokenBucketLimiter.fromSettings oneAMinute).ratePerSecond * 0) := by
  have hboth : admittedIn 0 (0 + 0)
      (serve plainEnv oneAMinute (.fromSettings oneAMinute) [guess "a" 0, guess "b" 0]) = 2 := by decide +kernel
  refine ⟨by simp [guess], rfl, ?_⟩
  rw [hboth]
  norm_num [TokenBucketLimiter.fromSettings, oneAMinute]

end LogAnalytics.Api
