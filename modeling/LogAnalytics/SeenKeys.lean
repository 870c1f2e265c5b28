import LogAnalytics.Lib.Recency
import LogAnalytics.Deduplication
/-!
# What the set of seen keys remembers

`SeenKeys` holds the last `maxSize` keys in the order of their last occurrence, so a key is
recognised as long as fewer than `maxSize` others have come since. `Deduplicator` counts every key
it lets through once, in the set or among the evictions.
-/
open LogAnalytics.Lib

namespace LogAnalytics

variable {K : Type} [DecidableEq K]

namespace SeenKeys

/-- The set after these keys. -/
def addAll (s : SeenKeys K) (ks : List K) : SeenKeys K := ks.foldl (fun s k => (s.add k).2) s

theorem add_keys_of_mem {s : SeenKeys K} {key : K} (h : key ∈ s.keys) :
    (s.add key).2.keys = s.keys.erase key ++ [key] := by
  unfold add
  rw [dif_pos h]

/-- The set is the end of the keys in the order of their last occurrence. -/
def Remembers (s : SeenKeys K) (ks : List K) : Prop := s.keys = ks.dedup.rtake s.maxSize

theorem Remembers.add {s : SeenKeys K} {ks : List K} (h : s.Remembers ks) (key : K) :
    (s.add key).2.Remembers (ks ++ [key]) := by
  unfold Remembers at h ⊢
  rw [add_maxSize, dedup_snoc]
  by_cases hmem : key ∈ s.keys
  · rw [add_keys_of_mem hmem, h]
    rw [h] at hmem
    exact (rtake_again ks.nodup_dedup hmem).symm
  · rw [add_keys_of_fresh hmem, h]
    rw [h] at hmem
    exact (rtake_other s.pos hmem).symm

theorem Remembers.addAll {s : SeenKeys K} (ks : List K) : ∀ {before}, s.Remembers before →
    (s.addAll ks).Remembers (before ++ ks) := by
  induction ks generalizing s with
  | nil => intro before h; rwa [List.append_nil]
  | cons k ks ih =>
    intro before h
    rw [List.append_cons]
    exact ih (h.add k)

/-- A new key is in the set or has pushed one out. -/
theorem add_count (s : SeenKeys K) (key : K) :
    (s.add key).2.keys.length + (s.add key).2.evictions =
      s.keys.length + s.evictions + (if (s.add key).1 then 1 else 0) := by
  have hbounded := s.bounded
  unfold add
  split
  · next h =>
    have hlen := List.length_erase_add_one h
    simp only [List.length_append, List.length_singleton, Bool.false_eq_true, if_false]
    omega
  · split
    · simp only [List.length_tail, List.length_append, List.length_singleton, if_true]
      omega
    · simp only [List.length_append, List.length_singleton, if_true]
      omega

end SeenKeys

namespace Deduplicator

variable {E : Type}

/-- The deduplicator after these events. -/
def afterAll (key : E → Option K) (d : Deduplicator K) (events : List E) : Deduplicator K :=
  events.foldl (fun d event => (d.isDuplicate key event).2) d

/-- Every event is counted once, and every key let through is in the set or evicted. -/
structure Balanced (d : Deduplicator K) : Prop where
  seen : d.stats.seen = d.stats.unique + d.stats.duplicates
  unique : d.stats.unique = d.stats.exempt + d.seen.keys.length + d.seen.evictions

theorem Balanced.isDuplicate {d : Deduplicator K} (h : d.Balanced) (key : E → Option K) (event : E) :
    (d.isDuplicate key event).2.Balanced := by
  obtain ⟨hseen, hdup, hunique⟩ := d.isDuplicate_stats key event
  have hs := h.seen
  have hu := h.unique
  refine ⟨?_, ?_⟩
  · rw [hseen, hdup, hunique]
    split <;> omega
  · unfold Deduplicator.isDuplicate
    cases key event with
    | none =>
      dsimp only
      omega
    | some k =>
      have hcount := d.seen.add_count k
      dsimp only
      split
      · next hfresh =>
        rw [hfresh, if_pos rfl] at hcount
        dsimp only
        omega
      · next hknown =>
        rw [if_neg hknown] at hcount
        dsimp only
        omega

theorem Balanced.afterAll (key : E → Option K) (events : List E) : ∀ {d : Deduplicator K}, d.Balanced →
    (d.afterAll key events).Balanced := by
  induction events with
  | nil => exact fun h => h
  | cons event events ih => exact fun h => ih (h.isDuplicate key event)

end Deduplicator

end LogAnalytics
