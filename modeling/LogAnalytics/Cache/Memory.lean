import Mathlib.Data.Finset.Order
import Mathlib.Data.Finset.Dedup
import Mathlib.Tactic.NormNum
import LogAnalytics.Lib.Recency
import LogAnalytics.Cache.Backends
/-!
# The memory cache as a map

`MemoryCache` with its settings and statistics, against the map it stands for: every key with the
value it was last set to, until its deadline. The cache serves what the map holds, except what
was pushed out by `maxEntries` other keys.
-/
open LogAnalytics.Lib

namespace LogAnalytics.Cache

variable {V : Type}

structure CacheStats where
  hits : Nat := 0
  misses : Nat := 0
  sets : Nat := 0
  errors : Nat := 0
  evictions : Nat := 0

structure Memory (V : Type) extends MemoryCache V where
  backend : Backend
  defaultTtl : Int
  maxEntries : Nat
  stats : CacheStats

inductive Op (V : Type) where
  | get (key : Text)
  | set (key : Text) (value : V) (ttl : Option Int)
  | delete (key : Text)
  | clear (view : Option Text)

/-- An operation, with the clock while it holds the lock. -/
structure Step (V : Type) where
  now : ℚ
  op : Op V

namespace Memory

/-- `MemoryCache(namespace, default_ttl, max_entries)` -/
def new (backend : Backend) (defaultTtl : Int := 300) (maxEntries : Int := 10000) : Memory V where
  entries := []
  backend := backend
  defaultTtl := defaultTtl
  maxEntries := (max 16 maxEntries).toNat
  stats := {}

def get (m : Memory V) (key : Text) (now : ℚ) : Option V × Memory V :=
  match m.toMemoryCache.get key now with
  | (none, c) => (none, { m with toMemoryCache := c, stats := { m.stats with misses := m.stats.misses + 1 } })
  | (some value, c) => (some value, { m with toMemoryCache := c, stats := { m.stats with hits := m.stats.hits + 1 } })

/-- No `ttl` is the default one; zero is zero. -/
def lifetime (defaultTtl : Int) (ttl : Option Int) : ℚ := (ttl.getD defaultTtl : Int)

def set (m : Memory V) (key : Text) (value : V) (ttl : Option Int) (now : ℚ) : Memory V :=
  let entries := m.entries.filter (·.1 ≠ key) ++ [(key, now + lifetime m.defaultTtl ttl, value)]
  let excess := entries.length - m.maxEntries
  { m with
    entries := entries.drop excess
    stats := { m.stats with sets := m.stats.sets + 1, evictions := m.stats.evictions + excess } }

def delete (m : Memory V) (key : Text) : Memory V := { m with entries := m.entries.filter (·.1 ≠ key) }

def clear (m : Memory V) (view : Option Text) : Nat × Memory V :=
  let r := m.toMemoryCache.clear m.backend view
  (r.1, { m with toMemoryCache := r.2 })

def apply (m : Memory V) (s : Step V) : Memory V :=
  match s.op with
  | .get key => (m.get key s.now).2
  | .set key value ttl => m.set key value ttl s.now
  | .delete key => m.delete key
  | .clear view => (m.clear view).2

/-- The cache after these operations. -/
def after (m : Memory V) (steps : List (Step V)) : Memory V := steps.foldl apply m

/-- The key an operation sets or hits. -/
def used (m : Memory V) (s : Step V) : List Text :=
  match s.op with
  | .get key => if (m.get key s.now).1.isSome then [key] else []
  | .set key _ _ => [key]
  | .delete _ | .clear _ => []

/-- The keys set or hit, one after the other. -/
def uses : Memory V → List (Step V) → List Text
  | _, [] => []
  | m, s :: steps => m.used s ++ uses (m.apply s) steps

end Memory

/-! ## What was stored -/

/-- The operations after which a key no longer holds what it held. -/
def Op.forgets (b : Backend) (key : Text) : Op V → Bool
  | .get _ => false
  | .set other _ _ => other = key
  | .delete other => other = key
  | .clear view => MemoryCache.doomed b view key

/-- `key` was last set to `value`, until `deadline`, and neither deleted nor cleared since. -/
def Stored (b : Backend) (defaultTtl : Int) (steps : List (Step V)) (key : Text) (deadline : ℚ) (value : V) : Prop :=
  ∃ before now ttl since, steps = before ++ ⟨now, .set key value ttl⟩ :: since ∧
    deadline = now + Memory.lifetime defaultTtl ttl ∧ ∀ s ∈ since, s.op.forgets b key = false

/-- The map without a bound: the deadline and the value of every key. -/
abbrev TtlMap (V : Type) : Type := Text → Option (ℚ × V)

namespace TtlMap

def apply (b : Backend) (defaultTtl : Int) (t : TtlMap V) (s : Step V) : TtlMap V := fun key =>
  if s.op.forgets b key then
    match s.op with
    | .set _ value ttl => some (s.now + Memory.lifetime defaultTtl ttl, value)
    | _ => none
  else t key

def after (b : Backend) (defaultTtl : Int) (t : TtlMap V) (steps : List (Step V)) : TtlMap V :=
  steps.foldl (apply b defaultTtl) t

theorem after_snoc (b : Backend) (defaultTtl : Int) (t : TtlMap V) (steps : List (Step V)) (s : Step V) :
    t.after b defaultTtl (steps ++ [s]) = (t.after b defaultTtl steps).apply b defaultTtl s := List.foldl_concat ..

end TtlMap

variable {b : Backend} {defaultTtl : Int}

theorem stored_snoc {steps : List (Step V)} {s : Step V} {key : Text} {deadline : ℚ} {value : V} :
    Stored b defaultTtl (steps ++ [s]) key deadline value ↔
      if s.op.forgets b key then
        ∃ ttl, s.op = .set key value ttl ∧ deadline = s.now + Memory.lifetime defaultTtl ttl
      else Stored b defaultTtl steps key deadline value := by
  constructor
  · rintro ⟨before, now, ttl, since, hsteps, rfl, hsince⟩
    rcases List.eq_nil_or_concat since with rfl | ⟨since, last, rfl⟩
    · obtain ⟨-, hs⟩ := List.append_inj' hsteps rfl
      obtain rfl := List.singleton_inj.1 hs
      rw [if_pos (by simp [Op.forgets])]
      exact ⟨ttl, rfl, rfl⟩
    · rw [List.concat_eq_append] at hsteps hsince
      rw [← List.cons_append, ← List.append_assoc] at hsteps
      obtain ⟨rfl, hs⟩ := List.append_inj' hsteps rfl
      obtain rfl := List.singleton_inj.1 hs
      rw [if_neg (by simp [hsince s (by simp)])]
      exact ⟨before, now, ttl, since, rfl, rfl, fun r hr => hsince r (List.mem_append_left _ hr)⟩
  · split
    · rintro ⟨ttl, hop, rfl⟩
      obtain ⟨now, op⟩ := s
      obtain rfl : op = _ := hop
      exact ⟨steps, now, ttl, [], rfl, rfl, fun _ h => absurd h List.not_mem_nil⟩
    · next hkept =>
      rintro ⟨before, now, ttl, since, rfl, rfl, hsince⟩
      refine ⟨before, now, ttl, since ++ [s], by simp, rfl, fun r hr => ?_⟩
      rcases List.mem_append.1 hr with hr | hr
      · exact hsince r hr
      · rw [List.mem_singleton.1 hr]
        simpa using hkept

/-- The map holds what was stored. -/
theorem after_eq_some {steps : List (Step V)} {key : Text} {deadline : ℚ} {value : V} :
    TtlMap.after b defaultTtl (fun _ => none : TtlMap V) steps key = some (deadline, value) ↔
      Stored b defaultTtl steps key deadline value := by
  induction steps using List.reverseRecOn with
  | nil => simp [TtlMap.after, Stored]
  | append_singleton steps s ih =>
    rw [stored_snoc, TtlMap.after_snoc, TtlMap.apply]
    split
    · next hforgets =>
      obtain ⟨now, op⟩ := s
      cases op with
      | get other => simp [Op.forgets] at hforgets
      | set other value' ttl =>
        obtain rfl : other = key := by simpa [Op.forgets] using hforgets
        constructor
        · intro h
          simp only [Option.some.injEq, Prod.mk.injEq] at h
          obtain ⟨rfl, rfl⟩ := h
          exact ⟨ttl, rfl, rfl⟩
        · rintro ⟨ttl, hop, rfl⟩
          cases hop
          rfl
      | delete other => simp
      | clear view => simp
    · exact ih

/-! ## The cache and the map -/

namespace Memory

variable {m : Memory V} {t : TtlMap V} {u : List Text} {now : ℚ}

/-- The three ways a lookup can end: there is no entry, it has expired, or it is served. -/
theorem get_cases (m : Memory V) (key : Text) (now : ℚ) :
    (m.entries.lookup key = none ∧ (m.get key now).1 = none ∧ (m.get key now).2.entries = m.entries) ∨
    (∃ e, m.entries.lookup key = some e ∧ e.1 ≤ now ∧ (m.get key now).1 = none ∧
      (m.get key now).2.entries = m.entries.filter (·.1 ≠ key)) ∨
    ∃ e, m.entries.lookup key = some e ∧ now < e.1 ∧ (m.get key now).1 = some e.2 ∧
      (m.get key now).2.entries = m.entries.filter (·.1 ≠ key) ++ [(key, e)] := by
  unfold get MemoryCache.get
  cases m.entries.lookup key with
  | none => exact .inl ⟨rfl, rfl, rfl⟩
  | some e =>
    by_cases hle : e.1 ≤ now
    · refine .inr (.inl ⟨e, rfl, hle, ?_⟩)
      simp [hle]
    · refine .inr (.inr ⟨e, rfl, not_le.1 hle, ?_⟩)
      simp [hle]

@[simp] theorem get_maxEntries (m : Memory V) (key : Text) (now : ℚ) : (m.get key now).2.maxEntries = m.maxEntries := by
  unfold get
  split <;> rfl

/-- An operation leaves the settings as they are. -/
theorem apply_settings (m : Memory V) (s : Step V) : (m.apply s).maxEntries = m.maxEntries ∧
    (m.apply s).backend = m.backend ∧ (m.apply s).defaultTtl = m.defaultTtl := by
  obtain ⟨now, op⟩ := s
  cases op with
  | get key =>
    simp only [apply, get]
    split <;> exact ⟨rfl, rfl, rfl⟩
  | set key value ttl => exact ⟨rfl, rfl, rfl⟩
  | delete key => exact ⟨rfl, rfl, rfl⟩
  | clear view => exact ⟨rfl, rfl, rfl⟩

/-- What the cache has to do with the map, and with the keys used so far. -/
structure Refines (m : Memory V) (t : TtlMap V) (u : List Text) (now : ℚ) : Prop where
  order : m.keys.Sublist u.dedup
  holds : ∀ e ∈ m.entries, t e.1 = some e.2
  keeps : ∀ key e, t key = some e → now < e.1 → key ∈ u.dedup.rtake m.maxEntries → key ∈ m.keys
  bounded : m.entries.length ≤ m.maxEntries

namespace Refines

theorem nodup (h : m.Refines t u now) : m.keys.Nodup := h.order.nodup u.nodup_dedup

theorem mono (h : m.Refines t u now) {later : ℚ} (hlater : now ≤ later) : m.Refines t u later :=
  { h with keeps := fun key e he hdeadline => h.keeps key e he (hlater.trans_lt hdeadline) }

/-- What leaves an entry out, and the map with it. -/
theorem drop {t' : TtlMap V} {later : ℚ} (h : m.Refines t u now) (keep : Text → Bool) (hnow : now ≤ later) {m' : Memory V}
    (hentries : m'.entries = m.entries.filter fun e => keep e.1) (hmax : m'.maxEntries = m.maxEntries)
    (hkept : ∀ key, keep key = true → t' key = t key) (hdropped : ∀ key e, keep key = false → t' key = some e → e.1 ≤ later) :
    m'.Refines t' u later := by
  have hkeys : m'.keys = m.keys.filter keep := by
    rw [MemoryCache.keys, MemoryCache.keys, hentries, List.filter_map]
    rfl
  refine ⟨?_, ?_, ?_, ?_⟩
  · rw [hkeys]
    exact List.filter_sublist.trans h.order
  · intro e he
    rw [hentries, List.mem_filter] at he
    rw [hkept e.1 he.2]
    exact h.holds e he.1
  · intro key e he hdeadline hlast
    cases hkeep : keep key with
    | false => exact absurd (hdropped key e hkeep he) (not_le.2 hdeadline)
    | true =>
      rw [hmax] at hlast
      rw [hkept key hkeep] at he
      rw [hkeys]
      exact List.mem_filter.2 ⟨h.keeps key e he (hnow.trans_lt hdeadline) hlast, hkeep⟩
  · rw [hentries, hmax]
    exact (List.length_filter_le _ _).trans h.bounded

/-- A key that is set or hit moves to the end; what is over the bound leaves at the front. -/
theorem use {t' : TtlMap V} {later : ℚ} {key : Text} {e : ℚ × V} (h : m.Refines t u now) (hnow : now ≤ later) {m' : Memory V}
    (hentries : m'.entries = (m.entries.filter (·.1 ≠ key) ++ [(key, e)]).rtake m.maxEntries)
    (hmax : m'.maxEntries = m.maxEntries) (hself : t' key = some e) (hothers : ∀ other, other ≠ key → t' other = t other) :
    m'.Refines t' (u ++ [key]) later := by
  have hmoved : (m.entries.filter (·.1 ≠ key) ++ [(key, e)]).map Prod.fst = m.keys.erase key ++ [key] := by
    rw [List.map_append, keys_others h.nodup]
    rfl
  have hkeys : m'.keys = (m.keys.erase key ++ [key]).rtake m.maxEntries := by
    rw [MemoryCache.keys, hentries, List.rtake, List.map_drop, hmoved, List.rtake, ← hmoved, List.length_map]
  have horder : (m.keys.erase key ++ [key]).Sublist (u ++ [key]).dedup := by
    rw [dedup_snoc]
    exact (h.order.erase key).append_right [key]
  refine ⟨?_, ?_, ?_, ?_⟩
  · rw [hkeys]
    exact (List.drop_sublist _ _).trans horder
  · intro x hx
    rw [hentries] at hx
    rcases List.mem_append.1 (List.mem_of_mem_drop hx) with hx | hx
    · obtain ⟨hx, hne⟩ := List.mem_filter.1 hx
      rw [hothers x.1 (by simpa using hne)]
      exact h.holds x hx
    · rw [List.mem_singleton.1 hx]
      exact hself
  · intro other x hx hdeadline hlast
    rw [hmax] at hlast
    have hmem : other ∈ m.keys.erase key ++ [key] := by
      by_cases hother : other = key
      · exact mem_moved.2 (.inr hother)
      · rw [hothers other hother] at hx
        exact mem_moved.2 (.inl (h.keeps other x hx (hnow.trans_lt hdeadline) ((mem_rtake_snoc hlast).resolve_left hother)))
    rw [hkeys]
    exact mem_rtake_sublist horder (List.nodup_dedup _) hmem hlast
  · rw [hentries, hmax]
    exact length_rtake_le _ _

theorem get (h : m.Refines t u now) {later : ℚ} (hnow : now ≤ later) (key : Text) :
    (m.get key later).2.Refines t (u ++ if (m.get key later).1.isSome then [key] else []) later := by
  rcases m.get_cases key later with ⟨-, hanswer, hentries⟩ | ⟨e, hfound, hexpired, hanswer, hentries⟩ |
    ⟨e, hfound, hlive, hanswer, hentries⟩
  · rw [hanswer, Option.isSome_none, if_neg Bool.false_ne_true, List.append_nil]
    exact h.drop (fun _ => true) hnow (by rw [hentries, List.filter_true]) (m.get_maxEntries key later)
      (fun _ _ => rfl) fun _ _ hkeep => by cases hkeep
  · rw [hanswer, Option.isSome_none, if_neg Bool.false_ne_true, List.append_nil]
    refine h.drop (· ≠ key) hnow hentries (m.get_maxEntries key later) (fun _ _ => rfl) fun other e' hother he' => ?_
    obtain rfl : other = key := by simpa using hother
    have hheld := h.holds _ (mem_of_lookup hfound)
    rw [he', Option.some.injEq] at hheld
    rwa [hheld]
  · rw [hanswer, Option.isSome_some, if_pos rfl]
    refine h.use (e := e) hnow ?_ (m.get_maxEntries key later) (h.holds _ (mem_of_lookup hfound)) fun _ _ => rfl
    -- the entry only moves, so there is nothing over the bound
    have hlen : (m.entries.filter (·.1 ≠ key) ++ [(key, e)]).length ≤ m.maxEntries := by
      have hmem : key ∈ m.keys := List.mem_map_of_mem (mem_of_lookup hfound)
      have hcount : (m.entries.filter (·.1 ≠ key)).length = (m.keys.erase key).length := by
        rw [MemoryCache.keys, ← keys_others h.nodup key, List.length_map]
      have hsame : (m.keys.erase key).length + 1 = m.entries.length := by
        rw [List.length_erase_add_one hmem, MemoryCache.keys, List.length_map]
      rw [List.length_append, List.length_singleton, hcount, hsame]
      exact h.bounded
    rw [hentries, List.rtake, Nat.sub_eq_zero_of_le hlen, List.drop_zero]

/-- One operation. -/
theorem apply (h : m.Refines t u now) {s : Step V} (hnow : now ≤ s.now) :
    (m.apply s).Refines (t.apply m.backend m.defaultTtl s) (u ++ m.used s) s.now := by
  obtain ⟨later, op⟩ := s
  cases op with
  | get key =>
    have hmap : t.apply m.backend m.defaultTtl ⟨later, .get key⟩ = t := by
      funext other
      simp [TtlMap.apply, Op.forgets]
    rw [hmap]
    exact h.get hnow key
  | set key value ttl =>
    refine h.use (e := (later + lifetime m.defaultTtl ttl, value)) hnow rfl rfl ?_ fun other hother => ?_
    · simp [TtlMap.apply, Op.forgets]
    · simp [TtlMap.apply, Op.forgets, Ne.symm hother]
  | delete key =>
    rw [used, List.append_nil]
    refine h.drop (· ≠ key) hnow rfl rfl (fun other hother => ?_) fun other e hother he => ?_
    · have hne : key ≠ other := fun heq => by simp [heq] at hother
      simp [TtlMap.apply, Op.forgets, hne]
    · obtain rfl : other = key := by simpa using hother
      simp [TtlMap.apply, Op.forgets] at he
  | clear view =>
    rw [used, List.append_nil]
    refine h.drop (fun key => !MemoryCache.doomed m.backend view key) hnow rfl rfl (fun other hother => ?_)
      fun other e hother he => ?_
    · simp [TtlMap.apply, Op.forgets, by simpa using hother]
    · simp [TtlMap.apply, Op.forgets, by simpa using hother] at he

/-- Any number of operations. -/
theorem after (steps : List (Step V)) : ∀ {m : Memory V} {t : TtlMap V} {u : List Text} {now : ℚ}, m.Refines t u now →
    (∀ s ∈ steps, now ≤ s.now) → steps.Pairwise (·.now ≤ ·.now) →
      ∃ later, (later = now ∨ ∃ s ∈ steps, later = s.now) ∧
        (m.after steps).Refines (t.after m.backend m.defaultTtl steps) (u ++ m.uses steps) later := by
  induction steps with
  | nil =>
    intro m t u now h _ _
    exact ⟨now, .inl rfl, by rwa [uses, List.append_nil]⟩
  | cons s steps ih =>
    intro m t u now h hnow hclock
    obtain ⟨hfirst, hrest⟩ := List.pairwise_cons.1 hclock
    obtain ⟨later, hlater, hend⟩ := ih (h.apply (hnow s List.mem_cons_self)) hfirst hrest
    obtain ⟨-, hbackend, httl⟩ := m.apply_settings s
    rw [hbackend, httl, List.append_assoc] at hend
    refine ⟨later, .inr ?_, hend⟩
    rcases hlater with rfl | ⟨r, hr, rfl⟩
    · exact ⟨s, List.mem_cons_self, rfl⟩
    · exact ⟨r, List.mem_cons_of_mem _ hr, rfl⟩

end Refines

theorem refines_new (b : Backend) (defaultTtl maxEntries : Int) (now : ℚ) :
    (new b defaultTtl maxEntries : Memory V).Refines (fun _ => none) [] now where
  order := List.Sublist.refl []
  holds _ h := absurd h List.not_mem_nil
  keeps _ _ h := by cases h
  bounded := Nat.zero_le _

/-- From an empty cache, at any time after the operations. -/
theorem refines_after {b : Backend} {defaultTtl maxEntries : Int} {steps : List (Step V)}
    (hclock : steps.Pairwise (·.now ≤ ·.now)) {now : ℚ} (hnow : ∀ s ∈ steps, s.now ≤ now) :
    let m : Memory V := new b defaultTtl maxEntries
    (m.after steps).Refines (TtlMap.after b defaultTtl (fun _ => none) steps) (m.uses steps) now := by
  intro m
  cases steps with
  | nil => exact refines_new b defaultTtl maxEntries now
  | cons s steps =>
    have hfirst : ∀ r ∈ s :: steps, s.now ≤ r.now := by
      intro r hr
      rcases List.mem_cons.1 hr with rfl | hr
      · exact le_rfl
      · exact (List.pairwise_cons.1 hclock).1 r hr
    obtain ⟨later, hlater, hend⟩ := (refines_new b defaultTtl maxEntries s.now).after (s :: steps) hfirst hclock
    refine hend.mono ?_
    rcases hlater with rfl | ⟨r, hr, rfl⟩
    · exact hnow s List.mem_cons_self
    · exact hnow r hr

theorem after_maxEntries (steps : List (Step V)) : ∀ m : Memory V, (m.after steps).maxEntries = m.maxEntries := by
  induction steps with
  | nil => exact fun _ => rfl
  | cons s steps ih => exact fun m => (ih (m.apply s)).trans (m.apply_settings s).1

/-! ## The statistics -/

def Op.isGet : Op V → Bool
  | .get _ => true
  | _ => false

theorem apply_stats (m : Memory V) (s : Step V) :
    (m.apply s).stats.hits + (m.apply s).stats.misses =
      m.stats.hits + m.stats.misses + if Op.isGet s.op then 1 else 0 := by
  obtain ⟨now, op⟩ := s
  cases op with
  | get key =>
    simp only [apply, Memory.get, Op.isGet, if_true]
    split
    · exact (Nat.add_assoc _ _ _).symm
    · exact Nat.add_right_comm _ _ _
  | set key value ttl => rfl
  | delete key => rfl
  | clear view => rfl

theorem after_stats (steps : List (Step V)) : ∀ m : Memory V,
    (m.after steps).stats.hits + (m.after steps).stats.misses =
      m.stats.hits + m.stats.misses + steps.countP fun s => Op.isGet s.op := by
  induction steps with
  | nil => exact fun _ => rfl
  | cons s steps ih =>
    intro m
    have hstep := m.apply_stats s
    have hrest := ih (m.apply s)
    rw [after, List.foldl_cons, ← after, hrest, hstep, List.countP_cons, Nat.add_assoc, Nat.add_comm (ite _ _ _)]

end Memory

open Memory in
/-- The memory cache after any operations: its bound, its statistics, and what it serves. -/
theorem memoryCache_refines (b : Backend) (defaultTtl maxEntries : Int) (steps : List (Step V))
    (hclock : steps.Pairwise (·.now ≤ ·.now)) :
    let m : Memory V := new b defaultTtl maxEntries
    let n := (max 16 maxEntries).toNat
    (m.after steps).entries.length ≤ n ∧
    (m.after steps).stats.hits + (m.after steps).stats.misses = steps.countP (fun s => Op.isGet s.op) ∧
    ∀ key now value, (∀ s ∈ steps, s.now ≤ now) →
      (((m.after steps).get key now).1 = some value → ∃ deadline, Stored b defaultTtl steps key deadline value ∧ now < deadline) ∧
      ∀ deadline, Stored b defaultTtl steps key deadline value → now < deadline →
        ∀ earlier since, m.uses steps = earlier ++ key :: since → key ∉ since → since.dedup.length < n →
          ((m.after steps).get key now).1 = some value := by
  intro m n
  have hmax : (m.after steps).maxEntries = n := m.after_maxEntries steps
  refine ⟨?_, ?_, fun key now value hnow => ⟨fun hserved => ?_, fun deadline hstored hlive earlier since huses hsince hfew => ?_⟩⟩
  · obtain ⟨now, hnow⟩ := (steps.map (·.now)).toFinset.exists_le
    rw [← hmax]
    exact (refines_after hclock fun s hs => hnow s.now (List.mem_toFinset.2 (List.mem_map_of_mem hs))).bounded
  · rw [m.after_stats steps]
    exact Nat.zero_add _
  · have h : (m.after steps).Refines (TtlMap.after b defaultTtl (fun _ => none) steps) (m.uses steps) now :=
      refines_after hclock hnow
    rcases (m.after steps).get_cases key now with ⟨-, hanswer, -⟩ | ⟨-, -, -, hanswer, -⟩ | ⟨e, hfound, hlive, hanswer, -⟩
    · rw [hanswer] at hserved
      cases hserved
    · rw [hanswer] at hserved
      cases hserved
    · rw [hanswer, Option.some.injEq] at hserved
      subst hserved
      exact ⟨e.1, after_eq_some.1 (h.holds _ (mem_of_lookup hfound)), hlive⟩
  · have h : (m.after steps).Refines (TtlMap.after b defaultTtl (fun _ => none) steps) (m.uses steps) now :=
      refines_after hclock hnow
    have hmap := after_eq_some.2 hstored
    have hkey : key ∈ (m.after steps).keys := by
      refine h.keeps key _ hmap hlive (mem_rtake_dedup.2 ⟨earlier, since, huses, hsince, ?_⟩)
      rwa [hmax]
    obtain ⟨e, hfound⟩ := lookup_of_mem hkey
    have hheld := h.holds _ (mem_of_lookup hfound)
    rw [hmap, Option.some.injEq] at hheld
    subst hheld
    rcases (m.after steps).get_cases key now with ⟨hnone, -⟩ | ⟨e, hsome, hexpired, -⟩ | ⟨e, hsome, -, hanswer, -⟩
    · rw [hfound] at hnone
      cases hnone
    · rw [hfound, Option.some.injEq] at hsome
      subst hsome
      exact absurd hlive (not_lt.2 hexpired)
    · rw [hfound, Option.some.injEq] at hsome
      subst hsome
      exact hanswer

/-- Set for five seconds and asked for after three. -/
theorem memoryCache_refines_live :
    let m : Memory Nat := Memory.new ⟨[], id⟩ 300 16
    (((m.after [⟨0, .set (Text.ofString "k") 7 (some 5)⟩]).get (Text.ofString "k") 3).1 = some 7) :=
  ((memoryCache_refines ⟨[], id⟩ 300 16 [⟨0, .set (Text.ofString "k") 7 (some 5)⟩] (List.pairwise_singleton _ _)).2.2
    (Text.ofString "k") 3 7 (by norm_num)).2 5 ⟨[], 0, some 5, [], rfl, by norm_num [Memory.lifetime], by simp⟩ (by norm_num)
    [] [] rfl (by simp) (by decide)

end LogAnalytics.Cache
