import LogAnalytics.Cache.Redis
/-!
# Both backends answer alike

While the server answers and there is room for every key, `RedisCache` and `MemoryCache` are two
implementations of one map: a deployment that shares a server and one process with its memory give
the same answers to the same calls.
-/
open LogAnalytics.Lib

namespace LogAnalytics.Cache

variable {V : Type}

/-- What the map serves. -/
def TtlMap.serve (t : TtlMap V) (key : Text) (now : ℚ) : Option V := ((t key).filter (now < ·.1)).map Prod.snd

/-- The same call, on the memory cache. -/
def CacheCall.step : CacheCall V → Step V
  | .get key s _ => ⟨s.now, .get key⟩
  | .set key value ttl s => ⟨s.now, .set key value ttl⟩
  | .delete key s => ⟨s.now, .delete key⟩
  | .clear view _ s => ⟨s.now, .clear view⟩

def CacheEvent.answer : CacheEvent V → Option (Option V)
  | .got _ _ value => some value
  | _ => none

/-- What the memory cache answers to each lookup. -/
def Memory.answers : Memory V → List (Step V) → List (Option V)
  | _, [] => []
  | m, s :: steps =>
    (match s.op with
      | .get key => [(m.get key s.now).1]
      | _ => []) ++ answers (m.apply s) steps

/-- The server answers; what is set is one of `keys`, survives its encoding and has a lifetime that Redis takes;
and both backends drop the same of `keys`. -/
def CacheCall.Plain (codec : Codec V) (g : Glob) (b : Backend) (defaultTtl : Int) (keys : List Text) : CacheCall V → Prop
  | .get _ s _ => s.delivery = .answered
  | .set key value ttl s => s.delivery = .answered ∧ key ∈ keys ∧ 1 ≤ ttl.getD defaultTtl ∧
      ∃ payload, codec.dumps value = some payload ∧ codec.loads payload = some (some value)
  | .delete _ s => s.delivery = .answered
  | .clear view _ s => s.delivery = .answered ∧ ∀ key ∈ keys, SameReach g b view key

/-! ## The memory cache with room -/

namespace Memory

variable {m : Memory V} {t : TtlMap V} {u : List Text} {now later : ℚ}

/-- A cache with room for every key it has used serves what the map holds. -/
theorem Refines.serve (h : m.Refines t u now) (hnow : now ≤ later) (hused : ∀ key e, t key = some e → key ∈ u)
    (hroom : u.dedup.length ≤ m.maxEntries) (key : Text) : (m.get key later).1 = t.serve key later := by
  have hmap : ∀ e, m.entries.lookup key = some e → t key = some e := fun e hfound => h.holds _ (mem_of_lookup hfound)
  rcases m.get_cases key later with ⟨hnone, hanswer, -⟩ | ⟨e, hfound, hexpired, hanswer, -⟩ | ⟨e, hfound, hlive, hanswer, -⟩
  · rw [hanswer, TtlMap.serve]
    cases ht : t key with
    | none => rfl
    | some e =>
      by_cases hlive : later < e.1
      · have hkept : key ∈ m.keys := by
          refine h.keeps key e ht (hnow.trans_lt hlive) ?_
          rw [List.rtake, Nat.sub_eq_zero_of_le hroom, List.drop_zero, List.mem_dedup]
          exact hused key e ht
        exact absurd hkept (lookup_none.1 hnone)
      · rw [Option.filter_some, if_neg (by simpa using hlive)]
        rfl
  · rw [hanswer, TtlMap.serve, hmap e hfound, Option.filter_some, if_neg (by simpa using hexpired)]
    rfl
  · rw [hanswer, TtlMap.serve, hmap e hfound, Option.filter_some, if_pos (by simpa using hlive)]
    rfl

end Memory

theorem TtlMap.apply_other {b : Backend} {defaultTtl : Int} {t : TtlMap V} {s : Step V} {key : Text}
    (h : s.op.forgets b key = false) : t.apply b defaultTtl s key = t key := by
  rw [TtlMap.apply, h]
  rfl

/-! ## The server -/

namespace RedisCache

variable {t : Table} {now : ℚ}

theorem get_live (ht : t.keys.Nodup) (key : Text) : (t.live now).get key = (t.get key).filter (now < ·.1) :=
  lookup_filter ht _ key

theorem get_delete (ht : t.keys.Nodup) (keys : List Text) (key : Text) :
    (t.delete keys).get key = if key ∈ keys then none else t.get key := by
  rw [RedisCache.get, delete, lookup_filter ht, ← RedisCache.get]
  by_cases hkey : key ∈ keys
  · simp [hkey]
  · cases t.get key <;> simp [hkey]

theorem get_put (t : Table) (key payload : Text) (deadline : ℚ) (other : Text) :
    (t.put key payload deadline).get other = if other = key then some (deadline, payload) else t.get other := by
  rw [RedisCache.get, put, lookup_snoc _ _ _ _ (by rw [lookup_others, if_pos rfl]), lookup_others]
  split <;> rfl

theorem nodup_live (ht : t.keys.Nodup) : (t.live now).keys.Nodup := ht.sublist (List.filter_sublist.map _)

theorem nodup_delete (ht : t.keys.Nodup) (keys : List Text) : (t.delete keys).keys.Nodup :=
  ht.sublist (List.filter_sublist.map _)

theorem nodup_put (ht : t.keys.Nodup) (key payload : Text) (deadline : ℚ) : (t.put key payload deadline).keys.Nodup := by
  rw [RedisCache.keys, put, List.map_append, keys_others ht]
  exact nodup_moved ht key

end RedisCache

/-- The payload of a value that can be encoded. -/
def Codec.encode (codec : Codec V) (value : V) : Text := (codec.dumps value).getD []

/-- The server holds what the map holds, encoded, as far as it has not expired. -/
structure Holds (codec : Codec V) (table : Table) (t : TtlMap V) (now : ℚ) : Prop where
  nodup : table.keys.Nodup
  same : ∀ key later, now ≤ later →
    (table.get key).filter (later < ·.1) = ((t key).filter (later < ·.1)).map fun e => (e.1, codec.encode e.2)

namespace Holds

variable {codec : Codec V} {table : Table} {t t' : TtlMap V} {now later : ℚ}

theorem live (h : Holds codec table t now) (hnow : now ≤ later) : Holds codec (table.live later) t later := by
  refine ⟨RedisCache.nodup_live h.nodup, fun key last hlast => ?_⟩
  rw [RedisCache.get_live h.nodup, Option.filter_filter, ← h.same key last (hnow.trans hlast)]
  congr 1
  funext e
  simpa using fun hlive => hlast.trans_lt hlive

/-- The map may forget more, as long as the server does not hold it. -/
theorem delete (h : Holds codec table t now) {keys : List Text} (hgone : ∀ key, key ∈ keys → t' key = none)
    (hkept : ∀ key, key ∉ keys → t' key = t key ∨ t' key = none ∧ table.get key = none) :
    Holds codec (table.delete keys) t' now := by
  refine ⟨RedisCache.nodup_delete h.nodup keys, fun key last hlast => ?_⟩
  rw [RedisCache.get_delete h.nodup]
  split
  · next hkey =>
    rw [hgone key hkey]
    rfl
  · next hkey =>
    rcases hkept key hkey with heq | ⟨hnone, habsent⟩
    · rw [heq]
      exact h.same key last hlast
    · rw [hnone, habsent]
      rfl

theorem put (h : Holds codec table t now) {key : Text} {deadline : ℚ} {value : V} (hself : t' key = some (deadline, value))
    (hothers : ∀ other, other ≠ key → t' other = t other) :
    Holds codec (table.put key (codec.encode value) deadline) t' now := by
  refine ⟨RedisCache.nodup_put h.nodup key _ deadline, fun other last hlast => ?_⟩
  rw [RedisCache.get_put]
  split
  · next heq =>
    rw [heq, hself, Option.filter_some, Option.filter_some]
    split <;> rfl
  · next hne =>
    rw [hothers other hne]
    exact h.same other last hlast

/-- A lookup on the server finds what the map serves. -/
theorem getPayload (h : Holds codec table t now) (hnow : now ≤ later) (key : Text) :
    (table.live later).getPayload key = (t.serve key later).map codec.encode := by
  rw [RedisCache.getPayload, RedisCache.get_live h.nodup, h.same key later hnow, TtlMap.serve, Option.map_map,
    Option.map_map]
  rfl

end Holds

/-! ## Side by side -/

/-- A closed breaker lets a command through, and an answer keeps it closed. -/
theorem Client.guard_answered {α : Type} {c : Client} {s : Sending} (hclosed : c.breaker.state = .closed)
    (hanswered : s.delivery = .answered) (t : Table) (action : α × Table) (default : α) :
    ∃ c', c.guard s t action default = (action.1, c', action.2) ∧ c'.breaker.state = .closed := by
  have hallows : (c.breaker.allows s.now).1 = true := by simp [CircuitBreaker.allows, CircuitBreaker.look, hclosed]
  refine ⟨{ c with breaker := (c.breaker.allows s.now).2.recordSuccess }, ?_, rfl⟩
  simp [guard, hallows, hanswered]

structure Agree (codec : Codec V) (keys : List Text) (d : Deployment) (m : Memory V) (t : TtlMap V) (u : List Text)
    (now : ℚ) : Prop where
  memory : m.Refines t u now
  server : Holds codec d.table t now
  closed : ∀ i, (d.client i).breaker.state = .closed
  survives : ∀ key e, t key = some e → codec.loads (codec.encode e.2) = some (some e.2)
  used : ∀ key e, t key = some e → key ∈ u
  known : ∀ key ∈ u, key ∈ keys
  room : keys.dedup.length ≤ m.maxEntries

namespace Agree

variable {codec : Codec V} {g : Glob} {keys : List Text} {d d' : Deployment} {m : Memory V} {t : TtlMap V} {u : List Text}
  {now : ℚ} {o : List (CacheEvent V)}

theorem serve (h : Agree codec keys d m t u now) {later : ℚ} (hnow : now ≤ later) (key : Text) :
    (m.get key later).1 = t.serve key later := by
  refine h.memory.serve hnow h.used (le_trans ?_ h.room) key
  have hsub : u.dedup ⊆ keys.dedup := fun k hk => List.mem_dedup.2 (h.known k (List.mem_dedup.1 hk))
  exact ((List.nodup_dedup u).subperm hsub).length_le

theorem closed_update (h : Agree codec keys d m t u now) {i : Nat} {c : Client} (hc : c.breaker.state = .closed) (j : Nat) :
    (Function.update d.client i c j).breaker.state = .closed := by
  by_cases hji : j = i
  · rw [hji, Function.update_self]
    exact hc
  · rw [Function.update_of_ne hji]
    exact h.closed j

theorem get (h : Agree codec keys d m t u now) {i : Nat} {key : Text} {s cleanup : Sending} (hnow : now ≤ s.now)
    (hanswered : s.delivery = .answered)
    (hs : d.step codec g m.backend m.defaultTtl (i, .get key s cleanup) = some (d', o)) :
    Agree codec keys d' (m.apply ⟨s.now, .get key⟩) t (u ++ m.used ⟨s.now, .get key⟩) s.now ∧
      o.filterMap CacheEvent.answer = [(m.get key s.now).1] := by
  obtain ⟨c, hguard, hc⟩ := Client.guard_answered (h.closed i) hanswered d.table
    ((d.table.live s.now).getPayload key, d.table.live s.now) none
  have hfetch : (d.client i).fetch key s d.table = ((t.serve key s.now).map codec.encode, c, d.table.live s.now) := by
    rw [Client.fetch, hguard, h.server.getPayload hnow]
  have hget := h.serve hnow key
  have hmemory := h.memory.get hnow key
  have hwithin : ∀ k ∈ u ++ m.used ⟨s.now, .get key⟩, k ∈ u := by
    intro k hk
    rcases List.mem_append.1 hk with hk | hk
    · exact hk
    · simp only [Memory.used] at hk
      split at hk
      · next hhit =>
        rw [hget, TtlMap.serve, Option.isSome_map] at hhit
        obtain ⟨e, he⟩ := Option.isSome_iff_exists.1 hhit
        rw [List.mem_singleton.1 hk]
        exact h.used key e (Option.filter_eq_some_iff.1 he).1
      · cases hk
  have hkept (c' : Client) (hc' : c'.breaker.state = .closed) :
      Agree codec keys ⟨d.table.live s.now, Function.update d.client i c'⟩ (m.apply ⟨s.now, .get key⟩) t
        (u ++ m.used ⟨s.now, .get key⟩) s.now :=
    ⟨hmemory, h.server.live hnow, h.closed_update hc', h.survives,
      fun k e he => List.mem_append_left _ (h.used k e he), fun k hk => h.known k (hwithin k hk),
      by rw [(m.apply_settings _).1]; exact h.room⟩
  rw [hget]
  simp only [Deployment.step, Client.get, hfetch, Option.some.injEq, Prod.mk.injEq] at hs
  obtain ⟨rfl, rfl⟩ := hs
  cases hserve : t.serve key s.now with
  | none => exact ⟨hkept _ hc, by simp [CacheEvent.answer]⟩
  | some value =>
    have hloads : codec.loads (codec.encode value) = some (some value) := by
      obtain ⟨e, he, rfl⟩ := Option.map_eq_some_iff.1 hserve
      exact h.survives key e (Option.filter_eq_some_iff.1 he).1
    simp only [Option.map_some, hloads]
    exact ⟨hkept _ hc, by simp [hloads, CacheEvent.answer]⟩

/-- What is left to show of a call that uses no key but those of the run and answers nothing. -/
theorem quiet (h : Agree codec keys d m t u now) {x : Step V} (hnow : now ≤ x.now) {i : Nat} {c : Client} {table : Table}
    (hc : c.breaker.state = .closed) (hused : ∀ key ∈ m.used x, key ∈ keys)
    (hserver : Holds codec table (t.apply m.backend m.defaultTtl x) x.now)
    (hmap : ∀ key e, t.apply m.backend m.defaultTtl x key = some e →
      t key = some e ∨ key ∈ m.used x ∧ codec.loads (codec.encode e.2) = some (some e.2)) :
    Agree codec keys ⟨table, Function.update d.client i c⟩ (m.apply x) (t.apply m.backend m.defaultTtl x) (u ++ m.used x)
      x.now := by
  refine ⟨h.memory.apply hnow, hserver, h.closed_update hc, fun key e he => ?_, fun key e he => ?_, fun key hkey => ?_, ?_⟩
  · exact (hmap key e he).elim (h.survives key e) And.right
  · exact List.mem_append.2 ((hmap key e he).imp (h.used key e) And.left)
  · exact (List.mem_append.1 hkey).elim (h.known key) (hused key)
  · rw [(m.apply_settings x).1]
    exact h.room

theorem set (h : Agree codec keys d m t u now) {i : Nat} {key : Text} {value : V} {ttl : Option Int} {s : Sending}
    (hnow : now ≤ s.now) (hplain : CacheCall.Plain codec g m.backend m.defaultTtl keys (.set key value ttl s))
    (hs : d.step codec g m.backend m.defaultTtl (i, .set key value ttl s) = some (d', o)) :
    Agree codec keys d' (m.apply ⟨s.now, .set key value ttl⟩) (t.apply m.backend m.defaultTtl ⟨s.now, .set key value ttl⟩)
      (u ++ m.used ⟨s.now, .set key value ttl⟩) s.now ∧ o.filterMap CacheEvent.answer = [] := by
  obtain ⟨hanswered, hkey, httl, payload, hdumps, hloads⟩ := hplain
  obtain ⟨c, hguard, hc⟩ := Client.guard_answered (h.closed i) hanswered d.table
    ((), (d.table.live s.now).put key payload (s.now + Client.lifetime m.defaultTtl ttl)) ()
  simp only [Deployment.step, Client.set, hdumps, hguard, Option.isSome_some, if_true, Option.some.injEq,
    Prod.mk.injEq] at hs
  obtain ⟨rfl, rfl⟩ := hs
  have hencode : codec.encode value = payload := by rw [Codec.encode, hdumps, Option.getD_some]
  have hself : t.apply m.backend m.defaultTtl ⟨s.now, .set key value ttl⟩ key =
      some (s.now + Client.lifetime m.defaultTtl ttl, value) := by
    simp [TtlMap.apply, Op.forgets, Client.lifetime, Memory.lifetime, max_eq_right httl]
  have hothers (other : Text) (hne : other ≠ key) :
      t.apply m.backend m.defaultTtl ⟨s.now, .set key value ttl⟩ other = t other :=
    TtlMap.apply_other (by simpa [Op.forgets] using Ne.symm hne)
  refine ⟨h.quiet hnow hc ?_ ?_ fun other e he => ?_, rfl⟩
  · intro k hk
    rwa [List.mem_singleton.1 hk]
  · rw [← hencode]
    exact (h.server.live hnow).put hself hothers
  · by_cases hne : other = key
    · rw [hne, hself, Option.some.injEq] at he
      subst he
      exact .inr ⟨hne ▸ List.mem_singleton_self _, hencode ▸ hloads⟩
    · rw [hothers other hne] at he
      exact .inl he

theorem delete (h : Agree codec keys d m t u now) {i : Nat} {key : Text} {s : Sending} (hnow : now ≤ s.now)
    (hanswered : s.delivery = .answered)
    (hs : d.step codec g m.backend m.defaultTtl (i, .delete key s) = some (d', o)) :
    Agree codec keys d' (m.apply ⟨s.now, .delete key⟩) (t.apply m.backend m.defaultTtl ⟨s.now, .delete key⟩)
      (u ++ m.used ⟨s.now, .delete key⟩) s.now ∧ o.filterMap CacheEvent.answer = [] := by
  obtain ⟨c, hguard, hc⟩ := Client.guard_answered (h.closed i) hanswered d.table
    ((), (d.table.live s.now).delete [key]) ()
  simp only [Deployment.step, Client.delete, hguard, Option.some.injEq, Prod.mk.injEq] at hs
  obtain ⟨rfl, rfl⟩ := hs
  have hmap (other : Text) : t.apply m.backend m.defaultTtl ⟨s.now, .delete key⟩ other =
      if key = other then none else t other := by
    simp [TtlMap.apply, Op.forgets]
  refine ⟨h.quiet hnow hc (fun k hk => by cases hk) ((h.server.live hnow).delete (fun other hother => ?_)
    fun other hother => .inl ?_) fun other e he => ?_, rfl⟩
  · rw [hmap, if_pos (List.mem_singleton.1 hother).symm]
  · rw [hmap, if_neg fun heq => hother (List.mem_singleton.2 heq.symm)]
  · rw [hmap, Option.ite_none_left_eq_some] at he
    exact .inl he.2

theorem clear (h : Agree codec keys d m t u now) {i : Nat} {view : Option Text} {scanned : List Text} {s : Sending}
    (hnow : now ≤ s.now) (hplain : CacheCall.Plain codec g m.backend m.defaultTtl keys (.clear view scanned s))
    (hs : d.step codec g m.backend m.defaultTtl (i, .clear view scanned s) = some (d', o)) :
    Agree codec keys d' (m.apply ⟨s.now, .clear view⟩) (t.apply m.backend m.defaultTtl ⟨s.now, .clear view⟩)
      (u ++ m.used ⟨s.now, .clear view⟩) s.now ∧ o.filterMap CacheEvent.answer = [] := by
  obtain ⟨hanswered, hreach⟩ := hplain
  obtain ⟨c, hguard, hc⟩ := Client.guard_answered (h.closed i) hanswered d.table
    (scanned.length, (d.table.live s.now).delete scanned) 0
  simp only [Deployment.step, Client.clear, hguard, Option.ite_none_right_eq_some, Option.some.injEq,
    Prod.mk.injEq] at hs
  obtain ⟨hscans, rfl, rfl⟩ := hs
  simp only [RedisCache.scans, hanswered, ne_eq, not_true_eq_false, decide_false, Bool.false_or, Bool.and_eq_true,
    List.all_eq_true, Bool.or_eq_true, Bool.not_eq_true', decide_eq_true_eq] at hscans
  obtain ⟨hmatches, hall⟩ := hscans
  have hmap (key : Text) : t.apply m.backend m.defaultTtl ⟨s.now, .clear view⟩ key =
      if MemoryCache.doomed m.backend view key = true then none else t key := rfl
  have hsame (key : Text) (e : ℚ × V) (he : t key = some e) :
      MemoryCache.doomed m.backend view key = g.isMatch (RedisCache.scope m.backend view ++ [star]) key :=
    sameReach_iff.1 (hreach key (h.known key (h.used key e he)))
  refine ⟨h.quiet hnow hc (fun k hk => by cases hk) ((h.server.live hnow).delete (fun key hkey => ?_)
    fun key hkey => ?_) fun key e he => ?_, rfl⟩
  · rw [hmap]
    split
    · rfl
    · next hkept =>
      cases ht : t key with
      | none => rfl
      | some e => exact absurd ((hsame key e ht).trans (hmatches key hkey)) hkept
  · rw [hmap]
    split
    · next hdoomed =>
      cases ht : t key with
      | none => exact .inl rfl
      | some e =>
        -- both drop it, and it has not been scanned, so it had expired
        rw [hsame key e ht] at hdoomed
        refine .inr ⟨rfl, lookup_none.2 fun hmem => ?_⟩
        obtain ⟨x, hx, rfl⟩ := List.mem_map.1 hmem
        rcases hall x hx with hno | hyes
        · rw [hdoomed] at hno
          cases hno
        · exact hkey hyes
    · exact .inl rfl
  · rw [hmap, Option.ite_none_left_eq_some] at he
    exact .inl he.2

end Agree

variable {codec : Codec V} {g : Glob} {b : Backend} {defaultTtl : Int} {keys : List Text}

/-- Any number of calls, from states that agree. -/
theorem Agree.run (calls : List (Nat × CacheCall V)) : ∀ {d d' : Deployment} {m : Memory V} {t : TtlMap V} {u : List Text}
    {now : ℚ} {tr : List (CacheEvent V)}, Agree codec keys d m t u now → m.backend = b → m.defaultTtl = defaultTtl →
      (∀ x ∈ calls, x.2.Plain codec g b defaultTtl keys) → (∀ x ∈ calls, now ≤ x.2.step.now) →
      (calls.map fun x => x.2.step).Pairwise (·.now ≤ ·.now) →
      runs (Deployment.step codec g b defaultTtl) d calls = some (d', tr) →
        tr.filterMap CacheEvent.answer = m.answers (calls.map fun x => x.2.step) := by
  induction calls with
  | nil =>
    intro d d' m t u now tr _ _ _ _ _ _ hrun
    cases hrun
    rfl
  | cons x calls ih =>
    intro d d' m t u now tr h hbackend httl hplain hnow hclock hrun
    obtain ⟨d₁, o, os, hs, hrest, rfl⟩ := runs_cons hrun
    obtain ⟨hfirst, hpairs⟩ := List.pairwise_cons.1 hclock
    have hx := hplain x List.mem_cons_self
    have hle := hnow x List.mem_cons_self
    subst hbackend httl
    have hstep : ∃ t' u', Agree codec keys d₁ (m.apply x.2.step) t' u' x.2.step.now ∧
        o.filterMap CacheEvent.answer = match x.2.step.op with
          | .get key => [(m.get key x.2.step.now).1]
          | _ => [] := by
      obtain ⟨i, call⟩ := x
      cases call with
      | get key s cleanup => exact ⟨_, _, h.get hle hx hs⟩
      | set key value ttl s => exact ⟨_, _, h.set hle hx hs⟩
      | delete key s => exact ⟨_, _, h.delete hle hx hs⟩
      | clear view scanned s => exact ⟨_, _, h.clear hle hx hs⟩
    obtain ⟨t', u', hagree, hanswer⟩ := hstep
    obtain ⟨-, hbackend, httl⟩ := m.apply_settings x.2.step
    rw [List.filterMap_append, hanswer, List.map_cons, Memory.answers]
    congr 1
    refine ih hagree hbackend httl (fun y hy => hplain y (List.mem_cons_of_mem _ hy)) (fun y hy => ?_) hpairs hrest
    exact hfirst _ (List.mem_map_of_mem (f := fun x : Nat × CacheCall V => x.2.step) hy)

/-- While the server answers, a deployment on one server answers its lookups as one memory cache with room for every
key would. -/
theorem backends_agree {maxEntries : Int} (hroom : keys.dedup.length ≤ (max 16 maxEntries).toNat)
    {calls : List (Nat × CacheCall V)} (hplain : ∀ x ∈ calls, x.2.Plain codec g b defaultTtl keys)
    (hclock : (calls.map fun x => x.2.step).Pairwise (·.now ≤ ·.now)) {d : Deployment} {tr : List (CacheEvent V)}
    (hrun : runs (Deployment.step codec g b defaultTtl) {} calls = some (d, tr)) :
    tr.filterMap CacheEvent.answer = (Memory.new b defaultTtl maxEntries).answers (calls.map fun x => x.2.step) := by
  obtain ⟨now, hnow⟩ : ∃ now, ∀ x ∈ calls, now ≤ x.2.step.now := by
    cases calls with
    | nil => exact ⟨0, fun _ hx => absurd hx List.not_mem_nil⟩
    | cons x calls =>
      refine ⟨x.2.step.now, fun y hy => ?_⟩
      rcases List.mem_cons.1 hy with rfl | hy
      · exact le_rfl
      · exact (List.pairwise_cons.1 hclock).1 _ (List.mem_map_of_mem (f := fun x : Nat × CacheCall V => x.2.step) hy)
  have hstart : Agree codec keys {} (Memory.new b defaultTtl maxEntries : Memory V) (fun _ => none) [] now :=
    ⟨Memory.refines_new b defaultTtl maxEntries now, ⟨List.nodup_nil, fun _ _ _ => rfl⟩, fun _ => rfl,
      fun _ _ he => (by cases he), fun _ _ he => (by cases he), fun _ hkey => (by cases hkey), hroom⟩
  exact hstart.run calls rfl rfl hplain hnow hclock hrun

/-- Set by one process, swept by a second and asked for by a third, twice. -/
def swept : List (Nat × CacheCall Nat) :=
  [(0, .set overviewKey 7 none (soon 0 .answered)), (2, .get overviewKey (soon 1 .answered) (soon 1 .answered)),
    (1, .clear (some (Text.ofString "analytics.overview")) [overviewKey] (soon 2 .answered)),
    (2, .get overviewKey (soon 3 .answered) (soon 3 .answered))]

theorem backends_agree_swept : ∃ d tr, runs (Deployment.step digitCodec prefixGlob loga 300) {} swept = some (d, tr) ∧
    tr.filterMap CacheEvent.answer = (Memory.new loga 300 16).answers (swept.map fun x => x.2.step) := by
  have hsome : (runs (Deployment.step digitCodec prefixGlob loga 300) {} swept).isSome = true := by decide +kernel
  obtain ⟨⟨d, tr⟩, hrun⟩ := Option.isSome_iff_exists.1 hsome
  have hreach : SameReach prefixGlob loga (some (Text.ofString "analytics.overview")) overviewKey := by
    rw [sameReach_iff]
    decide
  refine ⟨d, tr, hrun, @backends_agree _ _ _ _ _ [overviewKey] 16 (by decide) _ ?_ ?_ _ _ hrun⟩
  · simp only [swept, List.forall_mem_cons]
    refine ⟨⟨rfl, by simp, by decide, ⟨_, rfl, by decide⟩⟩, rfl, ⟨rfl, ?_⟩, rfl, fun _ h => absurd h List.not_mem_nil⟩
    intro key hkey
    rwa [List.mem_singleton.1 hkey]
  · norm_num [swept, CacheCall.step, soon]

end LogAnalytics.Cache
