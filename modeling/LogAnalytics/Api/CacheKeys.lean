import LogAnalytics.Cache.Backends
import LogAnalytics.Models.LogEvent
/-!
# Cache keys of the analytics views

`cache_key` for a request to one of the analytics routes: the view, the time range, the filters
that are set and the route's own parameters, each as a text, joined with `|` and hashed.

A filter value is text of the client and may hold the separator, so two requests can have the
same pieces between the separators. `cache_keys_differ` says that nothing else makes keys equal.
-/
open LogAnalytics.Lib LogAnalytics.Lib.Calendar LogAnalytics.Cache

namespace LogAnalytics.Api

/-- The names of `WINDOWS`; `_WINDOW_PATTERN` admits no other. -/
def windowNames : List String := ["1m", "5m", "15m", "1h", "6h", "1d"]

/-- `AVAILABLE_METRICS` -/
def availableMetrics : List String :=
  ["bytes", "client_errors", "error_rate", "errors", "latency_avg", "latency_max", "latency_p95", "latency_p99",
    "requests", "server_errors", "unique_ips", "unique_users"]

abbrev WindowName := { w : String // w ∈ windowNames }

abbrev MetricName := { m : String // m ∈ availableMetrics }

inductive Severity where
  | info
  | low
  | medium
  | high
  | critical
  deriving DecidableEq, Repr

def Severity.toStr : Severity → String
  | .info => "info"
  | .low => "low"
  | .medium => "medium"
  | .high => "high"
  | .critical => "critical"

/-- A view with the parameters of its own. -/
inductive View where
  | overview
  | errors (window : WindowName) (top : Nat)
  | traffic (window : WindowName) (top : Nat)
  | latency (window : WindowName) (top : Nat)
  | statusCodes
  | services (limit : Nat)
  | timeseries (metric : MetricName) (window : WindowName)
  | anomalies (window : WindowName) (metrics : List MetricName) (minSeverity : Severity) (limit : Nat)
  | security (limit : Nat)

/-- `FilterParams.values` -/
structure FilterParams where
  service : Option Text := none
  level : Option Text := none
  hostname : Option Text := none
  environment : Option Text := none
  statusCode : Option Nat := none
  endpoint : Option Text := none
  ipAddress : Option Text := none

/-- The route of the security view takes no filters. -/
structure AnalyticsRequest where
  view : View
  start : Clock
  stop : Clock
  filters : FilterParams := {}
  unfiltered : ∀ limit, view = .security limit → filters = {}

/-- What `_cached_view` is given as its prefix. -/
def View.viewPrefix : View → String
  | .overview => "analytics.overview"
  | .errors .. => "analytics.errors"
  | .traffic .. => "analytics.traffic"
  | .latency .. => "analytics.latency"
  | .statusCodes => "analytics.status_codes"
  | .services .. => "analytics.services"
  | .timeseries .. => "analytics.timeseries"
  | .anomalies .. => "analytics.anomalies"
  | .security .. => "analytics.security"

/-- `isoformat()` of a time in UTC, which is `str` of it with a `T` for the blank. -/
def isoformat (c : Clock) : Text := c.chars.map fun ch => CodePoint.ofChar (if ch = ' ' then 'T' else ch)

/-- `f"{k}={v}"` -/
def pair (name : String) (value : Text) : Text := Text.ofString name ++ CodePoint.ofChar '=' :: value

def str (n : Nat) : Text := Text.ofString (toString n)

/-- `sorted(active().items())` -/
def FilterParams.active (f : FilterParams) : List (String × Text) :=
  [("endpoint", f.endpoint), ("environment", f.environment), ("hostname", f.hostname), ("ip_address", f.ipAddress),
    ("level", f.level), ("service", f.service), ("status_code", f.statusCode.map str)].filterMap fun p => p.2.map (p.1, ·)

/-- `sorted(extra.items())` -/
def View.extra : View → List (String × Text)
  | .overview | .statusCodes => []
  | .errors window top | .traffic window top | .latency window top =>
    [("top", str top), ("window", Text.ofString window.1)]
  | .services limit | .security limit => [("limit", str limit)]
  | .timeseries metric window => [("metric", Text.ofString metric.1), ("window", Text.ofString window.1)]
  | .anomalies window metrics minSeverity limit =>
    [("limit", str limit), ("metrics", [CodePoint.ofChar ','].intercalate (metrics.map fun m => Text.ofString m.1)),
      ("min_severity", Text.ofString minSeverity.toStr), ("window", Text.ofString window.1)]

def texts (items : List (String × Text)) : List Text := items.map fun p => pair p.1 p.2

def AnalyticsRequest.parts (r : AnalyticsRequest) : List Text :=
  isoformat r.start :: isoformat r.stop :: (texts r.filters.active ++ texts r.view.extra)

def cacheKey (b : Backend) (r : AnalyticsRequest) : Text := b.buildKey (Text.ofString r.view.viewPrefix) r.parts

/-! ## What a key tells -/

/-- Texts are cut at their first separator in one way. -/
theorem append_cons_inj {α : Type} {a : α} {x y z w : List α} (hx : a ∉ x) (hy : a ∉ y) (h : x ++ a :: z = y ++ a :: w) :
    x = y ∧ z = w := by
  induction x generalizing y with
  | nil =>
    cases y with
    | nil => exact ⟨rfl, (List.cons.inj h).2⟩
    | cons c y => exact absurd ((List.cons.inj h).1 ▸ List.mem_cons_self) hy
  | cons c x ih =>
    cases y with
    | nil => exact absurd ((List.cons.inj h).1 ▸ List.mem_cons_self) hx
    | cons d y =>
      obtain ⟨rfl, hrest⟩ := List.cons.inj h
      obtain ⟨rfl, rfl⟩ := ih (fun h => hx (List.mem_cons_of_mem _ h)) (fun h => hy (List.mem_cons_of_mem _ h)) hrest
      exact ⟨rfl, rfl⟩

/-- What stands between the separators once the parts are joined. -/
def pieces (parts : List Text) : List Text := parts.flatMap (·.splitOn bar)

theorem splitOn_join {parts : List Text} (h : parts ≠ []) : ([bar].intercalate parts).splitOn bar = pieces parts := by
  induction parts with
  | nil => exact absurd rfl h
  | cons part parts ih =>
    cases parts with
    | nil => simp [pieces, List.intercalate]
    | cons next parts =>
      have hjoin : [bar].intercalate (part :: next :: parts) = part ++ bar :: [bar].intercalate (next :: parts) := by
        simp [List.intercalate]
      rw [hjoin, List.splitOn_append_cons_self, ih (by simp)]
      simp [pieces]

/-- Joined texts are the same when their pieces are. -/
theorem join_eq_iff {p q : List Text} (hp : p ≠ []) (hq : q ≠ []) :
    [bar].intercalate p = [bar].intercalate q ↔ pieces p = pieces q := by
  constructor
  · intro h
    rw [← splitOn_join hp, h, splitOn_join hq]
  · intro h
    have hpieces : ([bar].intercalate p).splitOn bar = ([bar].intercalate q).splitOn bar := by
      rw [splitOn_join hp, h, splitOn_join hq]
    have hjoin := congrArg ([bar].intercalate ·) hpieces
    simpa only [List.intercalate_splitOn] using hjoin

theorem pieces_of_notMem {parts : List Text} (h : ∀ part ∈ parts, bar ∉ part) : pieces parts = parts := by
  induction parts with
  | nil => rfl
  | cons part parts ih =>
    rw [pieces, List.flatMap_cons, List.splitOn_eq_singleton (h part List.mem_cons_self), ← pieces,
      ih fun part hpart => h part (List.mem_cons_of_mem _ hpart)]
    rfl

theorem str_injective : Function.Injective str := Text.ofString_nat_injective

theorem notMem_ofString {c : Char} {s : String} (h : c ∉ s.toList) : CodePoint.ofChar c ∉ Text.ofString s := by
  rw [Text.ofString, List.mem_map]
  rintro ⟨d, hd, heq⟩
  exact h (CodePoint.ofChar_injective heq ▸ hd)

/-! ## The parts that are not the client's text -/

theorem mem_chars {c : Clock} {ch : Char} (h : ch ∈ c.chars) : ch.isDigit = true ∨ ch ∈ ['-', ' ', ':', '.', '+'] := by
  simp only [Clock.chars, List.mem_append, List.mem_cons] at h
  have hzone : ∀ ch ∈ "+00:00".toList, ch.isDigit = true ∨ ch ∈ ['-', ' ', ':', '.', '+'] := by simp
  have hmicros : ch ∈ (if c.timeOfDay % 10 ^ 6 = 0 then [] else '.' :: zeroPad 6 (c.timeOfDay % 10 ^ 6)) →
      ch.isDigit = true ∨ ch ∈ ['-', ' ', ':', '.', '+'] := by
    split
    · simp
    · intro h
      rcases List.mem_cons.1 h with rfl | h
      · simp
      · exact .inl (zeroPad_isDigit ch h)
  have hdigit : ∀ {width n : Nat}, ch ∈ zeroPad width n → ch.isDigit = true ∨ ch ∈ ['-', ' ', ':', '.', '+'] :=
    fun h => .inl (zeroPad_isDigit ch h)
  rcases h with ((((((h | rfl | h) | rfl | h) | rfl | h) | rfl | h) | rfl | h) | h) | h
  all_goals first | exact hdigit h | exact hmicros h | exact hzone ch h | simp

theorem bar_notMem_isoformat (c : Clock) : bar ∉ isoformat c := by
  rw [isoformat, List.mem_map]
  rintro ⟨ch, hch, heq⟩
  have heq := CodePoint.ofChar_injective heq
  split at heq
  · cases heq
  · subst heq
    exact absurd (mem_chars hch) (by decide)

theorem isoformat_injective : Function.Injective isoformat := by
  intro a b h
  -- The blank is the only character that is written differently, and there is no `T` to confuse it with.
  have hback : ∀ c : Clock, (isoformat c).map (fun p => if p = CodePoint.ofChar 'T' then CodePoint.ofChar ' ' else p) =
      c.chars.map CodePoint.ofChar := by
    intro c
    rw [isoformat, List.map_map]
    refine List.map_congr_left fun ch hch => ?_
    have hne : ch ≠ 'T' := by
      rintro rfl
      exact absurd (mem_chars hch) (by decide)
    by_cases hblank : ch = ' '
    · simp [hblank]
    · simp [hblank, CodePoint.ofChar_injective.ne hne]
  have hchars := (hback a).symm.trans ((congrArg _ h).trans (hback b))
  exact Clock.chars_injective (List.map_injective_iff.2 CodePoint.ofChar_injective hchars)

theorem bar_notMem_str (n : Nat) : bar ∉ str n := by
  refine notMem_ofString ?_
  rw [Nat.toString_eq_ofList_toDigits, String.toList_ofList]
  intro h
  exact absurd (Nat.isDigit_of_mem_toDigits (by decide) (by decide) h) (by decide)

theorem bar_notMem_pair {name : String} {value : Text} (hname : '|' ∉ name.toList) (hvalue : bar ∉ value) :
    bar ∉ pair name value := by
  rw [pair, List.mem_append, List.mem_cons]
  rintro (h | h | h)
  · exact notMem_ofString hname h
  · exact absurd h (by decide)
  · exact hvalue h

theorem bar_notMem_name {names : List String} (hall : names.all (fun name => !name.toList.contains '|') = true)
    (name : { n : String // n ∈ names }) : bar ∉ Text.ofString name.1 := by
  have h := List.all_eq_true.1 hall name.1 name.2
  exact notMem_ofString (by simpa using h)

theorem bar_notMem_metrics (metrics : List MetricName) :
    bar ∉ [CodePoint.ofChar ','].intercalate (metrics.map fun m => Text.ofString m.1) := by
  have hmetric : ∀ m : MetricName, bar ∉ Text.ofString m.1 := bar_notMem_name (by decide)
  induction metrics with
  | nil => simp [List.intercalate]
  | cons m metrics ih =>
    cases metrics with
    | nil => simpa [List.intercalate] using hmetric m
    | cons next metrics =>
      simp only [List.map_cons, List.intercalate, List.intersperse, List.flatten_cons, List.mem_append] at ih ⊢
      rintro (h | h | h)
      · exact hmetric m h
      · exact absurd h (by decide)
      · exact ih h

theorem bar_notMem_extra (view : View) : ∀ text ∈ texts view.extra, bar ∉ text := by
  have hwindow : ∀ w : WindowName, bar ∉ Text.ofString w.1 := bar_notMem_name (by decide)
  have hmetric : ∀ m : MetricName, bar ∉ Text.ofString m.1 := bar_notMem_name (by decide)
  have hseverity : ∀ s : Severity, bar ∉ Text.ofString s.toStr := fun s =>
    notMem_ofString (by cases s <;> decide)
  rw [texts, List.forall_mem_map]
  cases view <;> simp only [View.extra, List.forall_mem_cons, List.not_mem_nil, false_implies, implies_true, and_true]
  case errors | traffic | latency =>
    exact ⟨bar_notMem_pair (by decide) (bar_notMem_str _), bar_notMem_pair (by decide) (hwindow _)⟩
  case services | security => exact bar_notMem_pair (by decide) (bar_notMem_str _)
  case timeseries => exact ⟨bar_notMem_pair (by decide) (hmetric _), bar_notMem_pair (by decide) (hwindow _)⟩
  case anomalies =>
    exact ⟨bar_notMem_pair (by decide) (bar_notMem_str _), bar_notMem_pair (by decide) (bar_notMem_metrics _),
      bar_notMem_pair (by decide) (hseverity _), bar_notMem_pair (by decide) (hwindow _)⟩

/-! ## The view and its parameters are told apart -/

theorem pair_right_injective (name : String) : Function.Injective (pair name) := fun _ _ h =>
  (List.cons.inj (List.append_cancel_left h)).2

theorem metrics_injective {p q : List MetricName}
    (h : [CodePoint.ofChar ','].intercalate (p.map fun m => Text.ofString m.1) =
      [CodePoint.ofChar ','].intercalate (q.map fun m => Text.ofString m.1)) : p = q := by
  have hcomma : ∀ m : MetricName, CodePoint.ofChar ',' ∉ Text.ofString m.1 := fun m =>
    notMem_ofString (by
      have hall : availableMetrics.all (fun name => !name.toList.contains ',') = true := by decide
      simpa using List.all_eq_true.1 hall m.1 m.2)
  have hnil : ∀ m : MetricName, Text.ofString m.1 ≠ [] := fun m => by
    have hall : availableMetrics.all (fun name => !(Text.ofString name).isEmpty) = true := by decide
    simpa using List.all_eq_true.1 hall m.1 m.2
  have hsplit : ∀ p : List MetricName, p ≠ [] →
      ([CodePoint.ofChar ','].intercalate (p.map fun m => Text.ofString m.1)).splitOn (CodePoint.ofChar ',') =
        p.map fun m => Text.ofString m.1 := fun p hp =>
    List.splitOn_intercalate _
      (fun text htext => by
        obtain ⟨m, -, rfl⟩ := List.mem_map.1 htext
        exact hcomma m)
      (mt List.map_eq_nil_iff.1 hp)
  -- No list of names joins to the empty text but the empty one.
  have hempty : ∀ p : List MetricName, p ≠ [] →
      [CodePoint.ofChar ','].intercalate (p.map fun m => Text.ofString m.1) ≠ [] := by
    intro p hp hj
    have hs := hsplit p hp
    rw [hj, List.splitOn_nil] at hs
    cases p with
    | nil => exact hp rfl
    | cons m p => exact hnil m (List.cons.inj hs).1.symm
  have hname : Function.Injective fun m : MetricName => Text.ofString m.1 := fun _ _ h =>
    Subtype.ext (Text.ofString_injective h)
  by_cases hp : p = []
  · subst hp
    by_contra hq
    exact hempty q (Ne.symm hq) h.symm
  · by_cases hq : q = []
    · subst hq
      exact absurd h (hempty p hp)
    · exact List.map_injective_iff.2 hname ((hsplit p hp).symm.trans ((congrArg _ h).trans (hsplit q hq)))

/-- A view is told by its prefix and its parameters, and the prefix says how many there are. -/
theorem view_eq {v w : View} (hview : v.viewPrefix = w.viewPrefix) :
    v.extra.length = w.extra.length ∧ (texts v.extra = texts w.extra → v = w) := by
  have hw : ∀ a b : WindowName, pair "window" (Text.ofString a.1) = pair "window" (Text.ofString b.1) → a = b :=
    fun a b h => Subtype.ext (Text.ofString_injective (pair_right_injective _ h))
  have hn : ∀ (name : String) (a b : Nat), pair name (str a) = pair name (str b) → a = b :=
    fun name a b h => str_injective (pair_right_injective _ h)
  cases v <;> cases w <;> dsimp only [View.viewPrefix] at hview <;> first
    | exact absurd hview (by decide)
    | refine ⟨rfl, fun h => ?_⟩
  all_goals simp only [texts, View.extra, List.map_cons, List.map_nil, List.cons.injEq, and_true] at h
  case errors.errors | traffic.traffic | latency.latency => rw [hn _ _ _ h.1, hw _ _ h.2]
  case services.services | security.security => rw [hn _ _ _ h]
  case timeseries.timeseries =>
    rw [Subtype.ext (Text.ofString_injective (pair_right_injective _ h.1)), hw _ _ h.2]
  case anomalies.anomalies =>
    have hseverity : Function.Injective Severity.toStr := fun a b => by cases a <;> cases b <;> decide
    rw [hn _ _ _ h.1, metrics_injective (pair_right_injective _ h.2.1),
      hseverity (Text.ofString_injective (pair_right_injective _ h.2.2.1)), hw _ _ h.2.2.2]
  all_goals rfl

/-! ## The filters -/

/-- The names in the order of `sorted`. -/
def filterNames : List String :=
  ["endpoint", "environment", "hostname", "ip_address", "level", "service", "status_code"]

theorem active_names (f : FilterParams) : ∀ item ∈ f.active, item.1 ∈ filterNames := by
  intro item hitem
  obtain ⟨p, hp, hvalue⟩ := List.mem_filterMap.1 hitem
  obtain ⟨value, -, rfl⟩ := Option.map_eq_some_iff.1 hvalue
  simp only [List.mem_cons, List.not_mem_nil, or_false] at hp
  rcases hp with rfl | rfl | rfl | rfl | rfl | rfl | rfl <;> simp [filterNames]

/-- A pair is read back at its first equals sign. -/
theorem pair_injective {n m : String} {v w : Text} (hn : n ∈ filterNames) (hm : m ∈ filterNames)
    (h : pair n v = pair m w) : n = m ∧ v = w := by
  have hall : filterNames.all (fun name => !name.toList.contains '=') = true := by decide
  have hname : ∀ n ∈ filterNames, CodePoint.ofChar '=' ∉ Text.ofString n := fun n hn =>
    notMem_ofString (by simpa using List.all_eq_true.1 hall n hn)
  obtain ⟨hnames, hvalues⟩ := append_cons_inj (hname n hn) (hname m hm) h
  exact ⟨Text.ofString_injective hnames, hvalues⟩

theorem texts_active_injective {f g : FilterParams} (h : texts f.active = texts g.active) : f.active = g.active := by
  have hinj : ∀ (p q : List (String × Text)), (∀ item ∈ p, item.1 ∈ filterNames) → (∀ item ∈ q, item.1 ∈ filterNames) →
      texts p = texts q → p = q := by
    intro p
    induction p with
    | nil => intro q _ _ h; exact (List.map_eq_nil_iff.1 h.symm).symm
    | cons item p ih =>
      intro q hp hq h
      cases q with
      | nil => cases h
      | cons other q =>
        obtain ⟨hfirst, hrest⟩ := List.cons.inj h
        obtain ⟨hnames, hvalues⟩ := pair_injective (hp item List.mem_cons_self) (hq other List.mem_cons_self) hfirst
        rw [Prod.ext hnames hvalues, ih q (fun i hi => hp i (List.mem_cons_of_mem _ hi))
          (fun i hi => hq i (List.mem_cons_of_mem _ hi)) hrest]
  exact hinj _ _ (active_names f) (active_names g) h

theorem active_injective : Function.Injective FilterParams.active := by
  intro f g h
  -- Each field is what the list has under its name.
  have hfields : ∀ f : FilterParams, f.active.lookup "service" = f.service ∧ f.active.lookup "level" = f.level ∧
      f.active.lookup "hostname" = f.hostname ∧ f.active.lookup "environment" = f.environment ∧
      f.active.lookup "endpoint" = f.endpoint ∧ f.active.lookup "ip_address" = f.ipAddress ∧
      f.active.lookup "status_code" = f.statusCode.map str := by
    rintro ⟨service, level, hostname, environment, statusCode, endpoint, ipAddress⟩
    cases service <;> cases level <;> cases hostname <;> cases environment <;> cases statusCode <;> cases endpoint <;>
      cases ipAddress <;> exact ⟨rfl, rfl, rfl, rfl, rfl, rfl, rfl⟩
  obtain ⟨h1, h2, h3, h4, h5, h6, h7⟩ := hfields f
  obtain ⟨g1, g2, g3, g4, g5, g6, g7⟩ := hfields g
  rw [h] at h1 h2 h3 h4 h5 h6 h7
  have hstatus : f.statusCode = g.statusCode := Option.map_injective str_injective (h7.symm.trans g7)
  cases f
  cases g
  simp_all

/-- No filter value has the separator in it. -/
def FilterParams.NoBar (f : FilterParams) : Prop := ∀ item ∈ f.active, bar ∉ item.2

theorem pieces_active {f : FilterParams} (h : f.NoBar) : pieces (texts f.active) = texts f.active := by
  refine pieces_of_notMem ?_
  rw [texts, List.forall_mem_map]
  intro item hitem
  have hall : filterNames.all (fun name => !name.toList.contains '|') = true := by decide
  exact bar_notMem_pair (by simpa using List.all_eq_true.1 hall _ (active_names f item hitem)) (h item hitem)

/-! ## Equal keys -/

theorem pieces_append (p q : List Text) : pieces (p ++ q) = pieces p ++ pieces q := List.flatMap_append

theorem pieces_parts (r : AnalyticsRequest) :
    pieces r.parts = isoformat r.start :: isoformat r.stop :: (pieces (texts r.filters.active) ++ texts r.view.extra) := by
  have hclock : ∀ c : Clock, (isoformat c).splitOn bar = [isoformat c] := fun c =>
    List.splitOn_eq_singleton (bar_notMem_isoformat c)
  rw [AnalyticsRequest.parts, pieces, List.flatMap_cons, List.flatMap_cons, hclock, hclock, ← pieces, pieces_append,
    pieces_of_notMem (bar_notMem_extra r.view)]
  rfl

/-- Two requests share a key when they differ in nothing but where filter values are cut. -/
theorem cacheKey_eq_iff {b : Backend} (hhash : Function.Injective b.contentHash) (q r : AnalyticsRequest) :
    cacheKey b q = cacheKey b r ↔ q.view = r.view ∧ q.start = r.start ∧ q.stop = r.stop ∧
      pieces (texts q.filters.active) = pieces (texts r.filters.active) := by
  have hcolon : ∀ v : View, colon ∉ Text.ofString v.viewPrefix := fun v =>
    notMem_ofString (by cases v <;> dsimp only [View.viewPrefix] <;> decide)
  have hjoin := join_eq_iff (p := q.parts) (q := r.parts) (by simp [AnalyticsRequest.parts]) (by simp [AnalyticsRequest.parts])
  constructor
  · intro h
    simp only [cacheKey, Backend.buildKey, List.append_assoc, List.cons_append] at h
    obtain ⟨hparts, hdigest⟩ :=
      append_cons_inj (hcolon q.view) (hcolon r.view) (List.cons.inj (List.append_cancel_left h)).2
    have hpieces := hjoin.1 (hhash hdigest)
    rw [pieces_parts, pieces_parts] at hpieces
    obtain ⟨hstart, hpieces⟩ := List.cons.inj hpieces
    obtain ⟨hstop, hpieces⟩ := List.cons.inj hpieces
    obtain ⟨hlength, hview⟩ := view_eq (Text.ofString_injective hparts)
    obtain ⟨hfilters, hextra⟩ := List.append_inj' hpieces (by simp only [texts, List.length_map, hlength])
    exact ⟨hview hextra, isoformat_injective hstart, isoformat_injective hstop, hfilters⟩
  · rintro ⟨hview, hstart, hstop, hfilters⟩
    have hpieces : pieces q.parts = pieces r.parts := by
      rw [pieces_parts, pieces_parts, hview, hstart, hstop, hfilters]
    rw [cacheKey, cacheKey, Backend.buildKey, Backend.buildKey, hview, hjoin.2 hpieces]

/-- The keys of different requests differ, unless only the separator in a filter value keeps the
requests apart. -/
theorem cache_keys_differ {b : Backend} (hhash : Function.Injective b.contentHash) {q r : AnalyticsRequest} (hne : q ≠ r) :
    (cacheKey b q ≠ cacheKey b r ↔ q.view ≠ r.view ∨ q.start ≠ r.start ∨ q.stop ≠ r.stop ∨
      pieces (texts q.filters.active) ≠ pieces (texts r.filters.active)) ∧
    (q.filters.NoBar → r.filters.NoBar → cacheKey b q ≠ cacheKey b r) := by
  constructor
  · rw [ne_eq, cacheKey_eq_iff hhash]
    simp only [not_and_or, ne_eq]
  · intro hq hr hkey
    obtain ⟨hview, hstart, hstop, hfilters⟩ := (cacheKey_eq_iff hhash q r).1 hkey
    rw [pieces_active hq, pieces_active hr] at hfilters
    have hsame := active_injective (texts_active_injective hfilters)
    apply hne
    cases q
    cases r
    simp_all

/-- A hash without collisions. -/
def exact : Backend where
  ns := Text.ofString "loga"
  contentHash text := text

/-- The overview of one day under these filters. -/
def overviewOf (filters : FilterParams) : AnalyticsRequest where
  view := .overview
  start := ⟨dayNumber 2026 8 6 * dayMicros, by decide⟩
  stop := ⟨dayNumber 2026 8 7 * dayMicros, by decide⟩
  filters := filters
  unfiltered _ h := by cases h

def oneHost : FilterParams := { hostname := some (Text.ofString "a") }

def hostAndService : FilterParams := { hostname := some (Text.ofString "a"), service := some (Text.ofString "b") }

def hostWithBar : FilterParams := { hostname := some (Text.ofString "a|service=b") }

theorem overviewOf_ne {f g : FilterParams} (h : f ≠ g) : overviewOf f ≠ overviewOf g := fun heq =>
  h (congrArg AnalyticsRequest.filters heq)

theorem cache_keys_differ_service : cacheKey exact (overviewOf oneHost) ≠ cacheKey exact (overviewOf hostAndService) :=
  (cache_keys_differ (b := exact) (fun _ _ h => h)
    (overviewOf_ne fun h => by cases congrArg FilterParams.service h)).2
    (by simp only [FilterParams.NoBar]; decide) (by simp only [FilterParams.NoBar]; decide)

/-- A hostname that looks like a hostname and a service. -/
theorem bar_in_hostname_collides : Function.Injective exact.contentHash ∧ overviewOf hostWithBar ≠ overviewOf hostAndService ∧
    cacheKey exact (overviewOf hostWithBar) = cacheKey exact (overviewOf hostAndService) :=
  ⟨fun _ _ h => h, overviewOf_ne (fun h => by cases congrArg FilterParams.service h), by decide +kernel⟩

end LogAnalytics.Api
