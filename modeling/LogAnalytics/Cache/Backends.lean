import Mathlib.Data.List.Basic
import Mathlib.Algebra.Order.Ring.Rat
import LogAnalytics.Lib.Assoc
import LogAnalytics.Models.Text
/-!
# Cache backends

`MemoryCache` and `RedisCache`: the keys both build, what they serve, and what `clear` drops.
Redis itself, a client that can be reached, is the table of its live keys; the pattern of `SCAN`
is matched by a parameter.

The one backend drops the keys that begin with `<namespace>:<prefix>`, the other those that
match `<namespace>:<prefix>:*`. `clear_same` says for which keys that is the same.
-/

namespace LogAnalytics.Cache

def colon : CodePoint := CodePoint.ofChar ':'

def bar : CodePoint := CodePoint.ofChar '|'

def star : CodePoint := CodePoint.ofChar '*'

/-- What both backends build their keys from. -/
structure Backend where
  /-- `namespace` -/
  ns : Text
  /-- `content_hash(..., digest_size=12)` -/
  contentHash : Text → Text

/-- `build_key`; `parts` are the texts of the parts. -/
def Backend.buildKey (b : Backend) (view : Text) (parts : List Text) : Text :=
  b.ns ++ colon :: view ++ colon :: b.contentHash ([bar].intercalate parts)

/-! ## Memory -/

/-- `_entries`: when they expire and what they hold, least recently used first. -/
structure MemoryCache (V : Type) where
  entries : List (Text × ℚ × V)

namespace MemoryCache

variable {V : Type}

def keys (c : MemoryCache V) : List Text := c.entries.map (·.1)

def get (c : MemoryCache V) (key : Text) (now : ℚ) : Option V × MemoryCache V :=
  match c.entries.lookup key with
  | none => (none, c)
  | some (expiresAt, value) =>
    let others := c.entries.filter (·.1 ≠ key)
    if expiresAt ≤ now then (none, ⟨others⟩) else (some value, ⟨others ++ [(key, expiresAt, value)]⟩)

/-- The keys `clear` drops. -/
def doomed (b : Backend) : Option Text → Text → Bool
  | none, _ => true
  | some view, key => (b.ns ++ colon :: view).isPrefixOf key

def clear (b : Backend) (arg : Option Text) (c : MemoryCache V) : Nat × MemoryCache V :=
  (c.entries.countP fun e => doomed b arg e.1, ⟨c.entries.filter fun e => !doomed b arg e.1⟩)

end MemoryCache

/-! ## Redis -/

/-- The characters a pattern does not take literally. -/
def isSpecial (c : CodePoint) : Bool := ['*', '?', '[', '\\'].any fun s => c = CodePoint.ofChar s

def Literal (text : Text) : Prop := ∀ c ∈ text, isSpecial c = false

/-- How `SCAN MATCH` reads a pattern. -/
structure Glob where
  isMatch : Text → Text → Bool
  literal_star : ∀ text key, Literal text → (isMatch (text ++ [star]) key = true ↔ text <+: key)

structure RedisCache (V : Type) where
  entries : List (Text × V)

namespace RedisCache

variable {V : Type}

def keys (c : RedisCache V) : List Text := c.entries.map (·.1)

def get (c : RedisCache V) (key : Text) : Option V := c.entries.lookup key

/-- The pattern of `clear` up to its star; an empty prefix counts as none. -/
def scope (b : Backend) : Option Text → Text
  | none | some [] => b.ns ++ [colon]
  | some view => b.ns ++ colon :: view ++ [colon]

def clear (g : Glob) (b : Backend) (arg : Option Text) (c : RedisCache V) : Nat × RedisCache V :=
  let dropped (key : Text) := g.isMatch (scope b arg ++ [star]) key
  (c.entries.countP fun e => dropped e.1, ⟨c.entries.filter fun e => !dropped e.1⟩)

end RedisCache

/-! ## After an ingest -/

/-- `INGEST_SENSITIVE_PREFIXES` -/
def ingestSensitivePrefixes : List Text :=
  ["analytics", "reports", "stats", "search", "anomalies", "security"].map Text.ofString

/-- `invalidate_after_ingest`, on the `clear` of either backend. -/
def invalidateAfterIngest {C : Type} (clear : Option Text → C → Nat × C) (c : C) : Nat × C :=
  ingestSensitivePrefixes.foldl (fun r view =>
    let s := clear (some view) r.2
    (r.1 + s.1, s.2)) (0, c)

variable {V : Type} {b : Backend} {g : Glob}

theorem mem_keys_memoryClear {arg : Option Text} {c : MemoryCache V} {key : Text} :
    key ∈ (c.clear b arg).2.keys ↔ key ∈ c.keys ∧ MemoryCache.doomed b arg key = false := by
  simp only [MemoryCache.clear, MemoryCache.keys, List.mem_map, List.mem_filter, Bool.not_eq_true']
  constructor
  · rintro ⟨e, ⟨he, hd⟩, rfl⟩
    exact ⟨⟨e, he, rfl⟩, hd⟩
  · rintro ⟨⟨e, he, rfl⟩, hd⟩
    exact ⟨e, ⟨he, hd⟩, rfl⟩

theorem mem_keys_redisClear {arg : Option Text} {c : RedisCache V} {key : Text} :
    key ∈ (c.clear g b arg).2.keys ↔ key ∈ c.keys ∧ g.isMatch (RedisCache.scope b arg ++ [star]) key = false := by
  simp only [RedisCache.clear, RedisCache.keys, List.mem_map, List.mem_filter, Bool.not_eq_true']
  constructor
  · rintro ⟨e, ⟨he, hd⟩, rfl⟩
    exact ⟨⟨e, he, rfl⟩, hd⟩
  · rintro ⟨⟨e, he, rfl⟩, hd⟩
    exact ⟨e, ⟨he, hd⟩, rfl⟩

/-- What is left after an ingest is what no sensitive prefix drops. -/
theorem mem_invalidated {C : Type} {clear : Option Text → C → Nat × C} (keys : C → List Text) {dropped : Text → Text → Prop}
    (hclear : ∀ view c key, key ∈ keys (clear (some view) c).2 ↔ key ∈ keys c ∧ ¬dropped view key) (c : C) (key : Text) :
    key ∈ keys (invalidateAfterIngest clear c).2 ↔ key ∈ keys c ∧ ∀ view ∈ ingestSensitivePrefixes, ¬dropped view key := by
  have hfold : ∀ (views : List Text) (r : Nat × C),
      key ∈ keys (views.foldl (fun r view => (r.1 + (clear (some view) r.2).1, (clear (some view) r.2).2)) r).2 ↔
        key ∈ keys r.2 ∧ ∀ view ∈ views, ¬dropped view key := by
    intro views
    induction views with
    | nil => intro r; simp
    | cons view views ih =>
      intro r
      rw [List.foldl_cons, ih, hclear, List.forall_mem_cons, and_assoc]
  exact hfold ingestSensitivePrefixes (0, c)

/-- A key of the namespace that a literal pattern drops, the memory cache drops too. -/
theorem doomed_of_scope {arg : Option Text} {key : Text} (h : RedisCache.scope b arg <+: key) :
    MemoryCache.doomed b arg key = true := by
  cases arg with
  | none => rfl
  | some view =>
    rw [MemoryCache.doomed, List.isPrefixOf_iff_prefix]
    cases view with
    | nil => exact h
    | cons c view => exact (List.prefix_append _ _).trans h

/-- When both backends drop a key, or neither does: for a literal pattern, when a key that begins
with the prefix goes on with a colon. -/
def SameReach (g : Glob) (b : Backend) (arg : Option Text) (key : Text) : Prop :=
  (Literal (RedisCache.scope b arg) → MemoryCache.doomed b arg key = true → RedisCache.scope b arg <+: key) ∧
    (¬Literal (RedisCache.scope b arg) → MemoryCache.doomed b arg key = g.isMatch (RedisCache.scope b arg ++ [star]) key)

theorem sameReach_iff {arg : Option Text} {key : Text} :
    SameReach g b arg key ↔ MemoryCache.doomed b arg key = g.isMatch (RedisCache.scope b arg ++ [star]) key := by
  by_cases hl : Literal (RedisCache.scope b arg)
  · have hstar := g.literal_star (RedisCache.scope b arg) key hl
    constructor
    · rintro ⟨h, -⟩
      exact Bool.eq_iff_iff.2 ⟨fun hd => hstar.2 (h hl hd), fun hm => doomed_of_scope (hstar.1 hm)⟩
    · intro h
      exact ⟨fun _ hd => hstar.1 (h ▸ hd), fun hn => absurd hl hn⟩
  · simp [SameReach, hl]

/-- `clear` drops the same keys from both backends when every one of them is in the reach of both. -/
theorem clear_same {m : MemoryCache V} {r : RedisCache V} (hkeys : r.keys = m.keys) (arg : Option Text) :
    (∀ key ∈ m.keys, key ∉ (m.clear b arg).2.keys ↔ key ∉ (r.clear g b arg).2.keys) ↔
      ∀ key ∈ m.keys, SameReach g b arg key := by
  refine forall_congr' fun key => forall_congr' fun hkey => ?_
  rw [mem_keys_memoryClear, mem_keys_redisClear, hkeys, sameReach_iff]
  simp only [hkey, true_and, Bool.not_eq_false]
  exact Bool.eq_iff_iff.symm

/-! ## Analytics entries after an ingest -/

def analytics : Text := Text.ofString "analytics"

theorem literal_append {s t : Text} : Literal (s ++ t) ↔ Literal s ∧ Literal t := by
  simp only [Literal, List.mem_append, or_imp, forall_and]

theorem literal_sensitive {view : Text} (h : view ∈ ingestSensitivePrefixes) (hns : Literal b.ns) :
    Literal (RedisCache.scope b (some view)) ∧ RedisCache.scope b (some view) = b.ns ++ colon :: view ++ [colon] := by
  have hview : view ≠ [] ∧ Literal (colon :: view ++ [colon]) := by
    have hall : ingestSensitivePrefixes.all (fun view => view ≠ [] && (colon :: view ++ [colon]).all (!isSpecial ·)) = true := by
      decide
    have hview := List.all_eq_true.1 hall view h
    simp only [Bool.and_eq_true, decide_eq_true_eq, List.all_eq_true, Bool.not_eq_true'] at hview
    exact hview
  obtain ⟨c, view, rfl⟩ := List.exists_cons_of_ne_nil hview.1
  have hscope : RedisCache.scope b (some (c :: view)) = b.ns ++ (colon :: (c :: view) ++ [colon]) := by
    simp [RedisCache.scope]
  exact ⟨hscope ▸ literal_append.2 ⟨hns, hview.2⟩, rfl⟩

/-- Of the sensitive prefixes only one is the beginning of an analytics view. -/
theorem eq_of_sensitive {view rest : Text} (h : view ∈ ingestSensitivePrefixes) (hp : view <+: analytics ++ rest) :
    view = analytics := by
  have hshort : view.length ≤ analytics.length := by
    have hall : ingestSensitivePrefixes.all (fun view => view.length ≤ analytics.length) = true := by decide
    exact of_decide_eq_true (List.all_eq_true.1 hall view h)
  have hpre : view.isPrefixOf analytics = true :=
    List.isPrefixOf_iff_prefix.2 (List.prefix_of_prefix_length_le hp (List.prefix_append _ _) hshort)
  have hall : ingestSensitivePrefixes.all (fun view => !view.isPrefixOf analytics || view = analytics) = true := by
    decide
  simpa [hpre] using List.all_eq_true.1 hall view h

/-- A key that is not there is not served. -/
theorem memory_get_none {c : MemoryCache V} {key : Text} (h : key ∉ c.keys) (now : ℚ) : (c.get key now).1 = none := by
  rw [MemoryCache.get, Lib.lookup_none.2 h]

theorem redis_get_none {c : RedisCache V} {key : Text} : c.get key = none ↔ key ∉ c.keys := Lib.lookup_none

/-- The memory cache serves no analytics entry any more. -/
theorem memory_forgets (m : MemoryCache V) (view : Text) (parts : List Text) (h : analytics <+: view) (now : ℚ) :
    ((invalidateAfterIngest (MemoryCache.clear b) m).2.get (b.buildKey view parts) now).1 = none := by
  apply memory_get_none
  rw [mem_invalidated MemoryCache.keys fun view c key => by
    rw [mem_keys_memoryClear, ← Bool.not_eq_true]]
  rintro ⟨-, hnone⟩
  refine hnone analytics (by decide) ?_
  obtain ⟨rest, rfl⟩ := h
  rw [MemoryCache.doomed, List.isPrefixOf_iff_prefix]
  exact ⟨rest ++ colon :: b.contentHash ([bar].intercalate parts), by simp [Backend.buildKey]⟩

/-- Redis forgets the entries of the view `analytics` itself, or below it after a colon. -/
theorem redis_forgets (hns : Literal b.ns) {r : RedisCache V} {view : Text} {parts : List Text}
    (hstored : b.buildKey view parts ∈ r.keys) (h : analytics <+: view) :
    (invalidateAfterIngest (RedisCache.clear g b) r).2.get (b.buildKey view parts) = none ↔
      view = analytics ∨ analytics ++ [colon] <+: view := by
  rw [redis_get_none, mem_invalidated RedisCache.keys fun view c key => by
    rw [mem_keys_redisClear, ← Bool.not_eq_true]]
  obtain ⟨rest, rfl⟩ := h
  have hreach : ∀ view ∈ ingestSensitivePrefixes,
      (g.isMatch (RedisCache.scope b (some view) ++ [star]) (b.buildKey (analytics ++ rest) parts) = true ↔
        view ++ [colon] <+: analytics ++ (rest ++ colon :: b.contentHash ([bar].intercalate parts))) := by
    intro view hview
    obtain ⟨hliteral, hscope⟩ := literal_sensitive hview hns
    rw [g.literal_star _ _ hliteral, hscope, Backend.buildKey]
    simp only [List.append_assoc, List.cons_append, List.prefix_append_right_inj, List.cons_prefix_cons, true_and]
  have hrest : analytics ++ [colon] <+: analytics ++ (rest ++ colon :: b.contentHash ([bar].intercalate parts)) ↔
      rest = [] ∨ [colon] <+: rest := by
    rw [List.prefix_append_right_inj]
    cases rest with
    | nil => simp
    | cons c rest => simp [List.cons_prefix_cons, eq_comm]
  have hview : (analytics ++ rest = analytics ∨ analytics ++ [colon] <+: analytics ++ rest) ↔ rest = [] ∨ [colon] <+: rest := by
    rw [List.prefix_append_right_inj, List.append_right_eq_self]
  rw [hview, ← hrest]
  simp only [hstored, true_and, not_forall, not_not]
  constructor
  · rintro ⟨view, hmem, hmatch⟩
    have hp := (hreach view hmem).1 hmatch
    rwa [eq_of_sensitive hmem ((List.prefix_append _ _).trans hp)] at hp
  · intro hp
    have hmem : analytics ∈ ingestSensitivePrefixes := by decide
    exact ⟨analytics, hmem, (hreach analytics hmem).2 hp⟩

/-- Which keys `clear` drops from both backends alike, and which analytics entries outlive an
ingest. -/
theorem clear_agrees (requests : List (Text × List Text)) (m : MemoryCache V) (r : RedisCache V)
    (hm : m.keys = requests.map fun q => b.buildKey q.1 q.2) (hr : r.keys = requests.map fun q => b.buildKey q.1 q.2) :
    (∀ arg, (∀ key ∈ m.keys, key ∉ (m.clear b arg).2.keys ↔ key ∉ (r.clear g b arg).2.keys) ↔
      ∀ key ∈ m.keys, SameReach g b arg key) ∧
    ∀ q ∈ requests, analytics <+: q.1 →
      (∀ now, ((invalidateAfterIngest (MemoryCache.clear b) m).2.get (b.buildKey q.1 q.2) now).1 = none) ∧
      (Literal b.ns → ((invalidateAfterIngest (RedisCache.clear g b) r).2.get (b.buildKey q.1 q.2) = none ↔
        q.1 = analytics ∨ analytics ++ [colon] <+: q.1)) := by
  refine ⟨fun arg => clear_same (hr.trans hm.symm) arg, fun q hq hview => ⟨memory_forgets m q.1 q.2 hview, fun hns => ?_⟩⟩
  exact redis_forgets hns (hr ▸ List.mem_map_of_mem hq) hview

/-- Patterns whose only special character is a star at the end. -/
def prefixGlob : Glob where
  isMatch pattern key := pattern.getLast? = some star && pattern.dropLast.isPrefixOf key
  literal_star text key _ := by simp

/-- The arguments of one overview, and their hash. -/
def oneDay : List Text := ["2026-08-06T00:00:00+00:00", "2026-08-07T00:00:00+00:00"].map Text.ofString

def loga : Backend where
  ns := Text.ofString "loga"
  contentHash text := if text = [bar].intercalate oneDay then Text.ofString "9778a23a1c98d8ed34a0f75d" else []

def overviewKey : Text := loga.buildKey (Text.ofString "analytics.overview") oneDay

theorem clear_agrees_view :
    overviewKey ∉ ((⟨[(overviewKey, 300, 7)]⟩ : MemoryCache Nat).clear loga (some (Text.ofString "analytics.overview"))).2.keys ↔
      overviewKey ∉ ((⟨[(overviewKey, 7)]⟩ : RedisCache Nat).clear prefixGlob loga
        (some (Text.ofString "analytics.overview"))).2.keys := by
  refine ((clear_agrees [(Text.ofString "analytics.overview", oneDay)] ⟨[(overviewKey, 300, 7)]⟩ ⟨[(overviewKey, 7)]⟩
    rfl rfl).1 (some (Text.ofString "analytics.overview"))).2 ?_ overviewKey (by simp [MemoryCache.keys])
  intro key hkey
  obtain rfl : key = overviewKey := by simpa [MemoryCache.keys] using hkey
  rw [sameReach_iff]
  decide

/-- The key of the overview is dropped from memory and stays in Redis, which serves it after an ingest. -/
theorem overview_outlives_ingest :
    ¬(overviewKey ∉ ((⟨[(overviewKey, 300, 7)]⟩ : MemoryCache Nat).clear loga (some analytics)).2.keys ↔
      overviewKey ∉ ((⟨[(overviewKey, 7)]⟩ : RedisCache Nat).clear prefixGlob loga (some analytics)).2.keys) ∧
    (invalidateAfterIngest (RedisCache.clear prefixGlob loga) (⟨[(overviewKey, 7)]⟩ : RedisCache Nat)).2.get overviewKey =
      some 7 := by
  decide

end LogAnalytics.Cache
