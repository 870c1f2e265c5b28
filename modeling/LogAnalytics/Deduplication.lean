import Mathlib.Data.List.Nodup
import LogAnalytics.Models.Text
/-!
# Deduplication

`SeenKeys` is the bounded LRU set of keys, oldest first, as its `OrderedDict` lists them; its
bound and the absence of repeats are fields. `Deduplicator` applies a key strategy to a
stream of events; `none` exempts an event.
-/

namespace LogAnalytics

structure SeenKeys (K : Type) where
  maxSize : Nat
  keys : List K
  evictions : Nat
  pos : 1 ≤ maxSize
  nodup : keys.Nodup
  bounded : keys.length ≤ maxSize

namespace SeenKeys

variable {K : Type} [DecidableEq K]

def empty (maxSize : Nat) (h : 1 ≤ maxSize) : SeenKeys K :=
  ⟨maxSize, [], 0, h, List.nodup_nil, Nat.zero_le _⟩

theorem one_le_ten : 1 ≤ 10 := by decide

/-- Record `key`; `true` if it had not been seen. -/
def add (s : SeenKeys K) (key : K) : Bool × SeenKeys K :=
  if h : key ∈ s.keys then
    (false, { s with
      keys := s.keys.erase key ++ [key]
      nodup := by
        refine List.nodup_append.2 ⟨s.nodup.erase _, by simp, ?_⟩
        rintro a ha b hb rfl
        simp only [List.mem_singleton] at hb
        subst hb
        exact (List.Nodup.mem_erase_iff s.nodup).1 ha |>.1 rfl
      bounded := by
        have := List.length_erase_add_one h
        have := s.bounded
        simp only [List.length_append, List.length_singleton]; omega })
  else if hl : s.maxSize < (s.keys ++ [key]).length then
    (true, { s with
      keys := (s.keys ++ [key]).tail
      evictions := s.evictions + 1
      nodup := (List.nodup_append.2 ⟨s.nodup, by simp, by
        rintro a ha b hb rfl
        simp only [List.mem_singleton] at hb
        exact h (hb ▸ ha)⟩).tail
      bounded := by
        have := s.bounded
        simp only [List.length_tail, List.length_append, List.length_singleton]; omega })
  else
    (true, { s with
      keys := s.keys ++ [key]
      nodup := List.nodup_append.2 ⟨s.nodup, by simp, by
        rintro a ha b hb rfl
        simp only [List.mem_singleton] at hb
        exact h (hb ▸ ha)⟩
      bounded := by omega })

/-- Adding `key` pushes no other key out. -/
def Keeps (s : SeenKeys K) (key : K) : Prop := key ∈ s.keys ∨ s.keys.length < s.maxSize

theorem add_fst (s : SeenKeys K) (key : K) : (s.add key).1 = decide (key ∉ s.keys) := by
  unfold add; split
  · simp [*]
  · split <;> simp [*]

/-- A key in the set afterwards was there before, or is the one added. -/
theorem mem_add {s : SeenKeys K} {key x : K} (h : x ∈ (s.add key).2.keys) : x ∈ s.keys ∨ x = key := by
  unfold add at h
  split at h
  · rename_i hk
    simp only [List.mem_append, List.mem_singleton] at h
    rcases h with h | h
    · exact .inl (List.mem_of_mem_erase h)
    · exact .inr h
  · split at h
    · have h := List.mem_of_mem_tail h
      simpa using h
    · simpa using h

/-- When nothing is evicted, the set afterwards is the set before and the key. -/
theorem mem_add_of_keeps {s : SeenKeys K} {key x : K} (hk : s.Keeps key) (h : x ∈ s.keys ∨ x = key) :
    x ∈ (s.add key).2.keys := by
  unfold add
  split
  · rename_i hm
    by_cases hx : x = key
    · simp [hx]
    · have hxs : x ∈ s.keys := h.resolve_right hx
      exact List.mem_append_left _ ((List.Nodup.mem_erase_iff s.nodup).2 ⟨hx, hxs⟩)
  · rename_i hm
    split
    · rename_i hl
      have hlt := hk.resolve_left hm
      simp only [List.length_append, List.length_singleton] at hl
      omega
    · simpa using h

theorem mem_add_self (s : SeenKeys K) (key : K) : key ∈ (s.add key).2.keys := by
  unfold add
  split
  · simp
  · split
    · -- the set was full, so the key pushed out is an older one
      next hl =>
      have hpos := s.pos
      have hne : s.keys ≠ [] := by
        intro hk
        simp only [hk, List.nil_append, List.length_singleton] at hl
        omega
      simp [List.tail_append_of_ne_nil hne]
    · simp

/-- A key that is new goes to the end, and at most the oldest one leaves. -/
theorem add_keys_of_fresh {s : SeenKeys K} {key : K} (h : key ∉ s.keys) :
    (s.add key).2.keys = (s.keys ++ [key]).drop (s.keys.length + 1 - s.maxSize) := by
  have hbounded := s.bounded
  unfold add
  rw [dif_neg h]
  split
  · next hl =>
    simp only [List.length_append, List.length_singleton] at hl
    rw [show s.keys.length + 1 - s.maxSize = 1 by omega, List.drop_one]
  · next hl =>
    simp only [List.length_append, List.length_singleton] at hl
    rw [show s.keys.length + 1 - s.maxSize = 0 by omega, List.drop_zero]

theorem add_maxSize (s : SeenKeys K) (key : K) : (s.add key).2.maxSize = s.maxSize := by
  unfold add
  split
  · rfl
  · split <;> rfl

end SeenKeys

/-! ## Keys that are far apart -/

/-- Among `n + 1` keys in a row none occurs twice. -/
def Spaced {K : Type} (n : Nat) (ks : List K) : Prop := ∀ i, ((ks.drop i).take (n + 1)).Nodup

theorem Spaced.nil {K : Type} (n : Nat) : Spaced n ([] : List K) := by
  intro i
  simp

/-- One more key: it must not be among the last `n`. -/
theorem spaced_snoc {K : Type} {n : Nat} {ks : List K} {k : K} :
    Spaced n (ks ++ [k]) ↔ Spaced n ks ∧ k ∉ ks.drop (ks.length - n) := by
  constructor
  · intro h
    refine ⟨fun i => ?_, ?_⟩
    · refine (h i).sublist ?_
      rw [List.drop_append, List.take_append]
      exact List.sublist_append_left _ _
    · have hwindow := h (ks.length - n)
      rw [List.drop_append_of_le_length (Nat.sub_le _ _), List.take_of_length_le (by simp; omega),
        List.nodup_append] at hwindow
      exact fun hk => hwindow.2.2 k hk k (List.mem_singleton_self k) rfl
  · rintro ⟨hks, hk⟩ i
    by_cases hi : i ≤ ks.length
    · rw [List.drop_append_of_le_length hi]
      by_cases hlong : n + 1 ≤ (ks.drop i).length
      · rw [List.take_append_of_le_length hlong]
        exact hks i
      · -- the window reaches the new key, and its others are among the last `n`
        rw [List.length_drop] at hlong
        have hshort := hks i
        rw [List.take_of_length_le (by rw [List.length_drop]; omega)] at hshort
        rw [List.take_of_length_le (by simp; omega)]
        refine List.nodup_append.2 ⟨hshort, List.nodup_singleton k, ?_⟩
        rintro a ha b hb rfl
        rw [List.mem_singleton.1 hb] at ha
        exact hk ((List.drop_suffix_drop_left ks (by omega)).subset ha)
    · rw [List.drop_of_length_le (by simp; omega)]
      simp

/-- An injective function keeps keys apart. -/
theorem spaced_map {K L : Type} {f : K → L} (hf : Function.Injective f) {n : Nat} {ks : List K} :
    Spaced n (ks.map f) ↔ Spaced n ks := by
  unfold Spaced
  simp only [← List.map_drop, ← List.map_take, List.nodup_map_iff hf]

structure DedupStats where
  seen : Nat := 0
  unique : Nat := 0
  duplicates : Nat := 0
  exempt : Nat := 0
  deriving DecidableEq, Repr

structure Deduplicator (K : Type) where
  seen : SeenKeys K
  stats : DedupStats := {}

namespace Deduplicator

variable {E K : Type} [DecidableEq K]

/-- `true` when this record has already been seen; `key` is the strategy's. -/
def isDuplicate (key : E → Option K) (d : Deduplicator K) (event : E) : Bool × Deduplicator K :=
  let stats := { d.stats with seen := d.stats.seen + 1 }
  match key event with
  | none => (false, { d with stats := { stats with exempt := stats.exempt + 1, unique := stats.unique + 1 } })
  | some k =>
    let (fresh, seen) := d.seen.add k
    if fresh then (false, { seen := seen, stats := { stats with unique := stats.unique + 1 } })
    else (true, { seen := seen, stats := { stats with duplicates := stats.duplicates + 1 } })

/-- `ContentHashStrategy.key`; `payload` is `event.raw_message or event.message`. -/
def contentHashKey {E K : Type} (hash : Text → K) (payload : E → Text) (event : E) : Option K :=
  if payload event = [] then none else some (hash (payload event))

/-- An event is a duplicate exactly when its key is still tracked. -/
theorem isDuplicate_fst (key : E → Option K) (d : Deduplicator K) (e : E) :
    (d.isDuplicate key e).1 = true ↔ ∃ k, key e = some k ∧ k ∈ d.seen.keys := by
  unfold isDuplicate
  cases hk : key e with
  | none => simp
  | some k =>
    have h := SeenKeys.add_fst d.seen k
    simp only [Option.some.injEq, exists_eq_left']
    by_cases hm : k ∈ d.seen.keys <;> simp [h, hm]

/-- What a call leaves in the set: the set after adding the key, or the set as it was. -/
theorem isDuplicate_seen (key : E → Option K) (d : Deduplicator K) (e : E) :
    (d.isDuplicate key e).2.seen = match key e with
      | none => d.seen
      | some k => (d.seen.add k).2 := by
  unfold isDuplicate
  cases key e with
  | none => rfl
  | some k => dsimp only; split <;> rfl

/-- A duplicate changes the order of the set, not its keys. -/
theorem isDuplicate_keys {key : E → Option K} {d : Deduplicator K} {e : E} (h : (d.isDuplicate key e).1 = true) (k : K) :
    k ∈ (d.isDuplicate key e).2.seen.keys ↔ k ∈ d.seen.keys := by
  obtain ⟨k', hk', hm⟩ := (isDuplicate_fst key d e).1 h
  simp only [isDuplicate_seen, hk']
  constructor
  · intro hk
    rcases SeenKeys.mem_add hk with hk | rfl
    · exact hk
    · exact hm
  · exact fun hk => SeenKeys.mem_add_of_keeps (.inl hm) (.inl hk)

/-- Every call counts the event once, as a duplicate or as unique. -/
theorem isDuplicate_stats (key : E → Option K) (d : Deduplicator K) (e : E) :
    (d.isDuplicate key e).2.stats.seen = d.stats.seen + 1 ∧
    (d.isDuplicate key e).2.stats.duplicates = d.stats.duplicates + (if (d.isDuplicate key e).1 then 1 else 0) ∧
    (d.isDuplicate key e).2.stats.unique = d.stats.unique + (if (d.isDuplicate key e).1 then 0 else 1) := by
  unfold isDuplicate
  cases key e with
  | none => simp
  | some k => dsimp only; split <;> simp

end Deduplicator

end LogAnalytics
