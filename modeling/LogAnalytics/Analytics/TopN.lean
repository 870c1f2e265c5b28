import Mathlib.Data.List.Lex
import LogAnalytics.Analytics.StatusCodes
import LogAnalytics.Lib.Ranking
/-!
# The most frequent values

`AnalyticsEngine._counts` next to `top_n`. The query cuts the ranking off and the code takes the
shares of what is left; `top_n` takes them of all that is counted. Equal counts are ordered by the
values in the one, by their texts in the other.
-/
open LogAnalytics.Lib

namespace LogAnalytics.TopN

/-- `round(count / total * 100, 4) if total else 0.0` -/
def share (count total : Nat) : ℚ := if total = 0 then 0 else roundTo 4 ((count : ℚ) / total * 100)

/-- `_counts` of the values of a column under the predicate, those that are not NULL; `str` writes
a value. -/
def counts {α : Type} [LinearOrder α] (str : α → Text) (values : List α) (limit : Nat) : List CountItem :=
  let rows := Search.fetch 0 (((countBy values).insertionSort Ranks).take limit)
  let total := (rows.map Prod.snd).sum
  rows.map fun row => { key := str row.1, count := row.2, percentage := share row.2 total }

/-- `top_n` -/
def topN (counts : List (Text × Nat)) (limit : Nat) (total : Option Nat) : List CountItem :=
  let denominator := total.getD (counts.map Prod.snd).sum
  ((counts.insertionSort Ranks).take limit).map fun row =>
    { key := row.1, count := row.2, percentage := share row.2 denominator }

/-- The codes of `status_codes` are such counts. -/
theorem topCounts_eq (str : Int → Text) (keys : List Int) {limit : Nat} (h : limit ≤ Search.absoluteMaxRows) :
    topCounts str keys limit = counts str keys limit := by
  have hfetch : ∀ rows : List (Int × Nat), Search.fetch 0 (rows.take limit) = rows.take limit := fun rows => by
    rw [Search.fetch, if_pos rfl, Nat.min_self, List.take_take, Nat.min_eq_right h]
  unfold counts
  rw [hfetch]
  rfl

section

variable {α : Type} [LinearOrder α] (str : α → Text) (values : List α) (limit : Nat)

/-- The rows of the query. -/
def listed : List (α × Nat) := ((countBy values).insertionSort Ranks).take limit

/-- A row with its value written. -/
def written (row : α × Nat) : Text × Nat := (str row.1, row.2)

/-- The order of `top_n`, before the values are written. -/
def RanksWritten (a b : α × Nat) : Prop := Ranks (written str a) (written str b)

instance : DecidableRel (RanksWritten str) := fun a b => inferInstanceAs (Decidable (Ranks (written str a) (written str b)))

instance : Std.Total (RanksWritten str) := ⟨fun a b => Std.Total.total (written str a) (written str b)⟩

instance : IsTrans (α × Nat) (RanksWritten str) := ⟨fun _ _ _ hab hbc => IsTrans.trans (r := Ranks) _ _ _ hab hbc⟩

/-- What the two agree on: nothing is lost to the cap of a query, the values a listed value ties
with are ordered like their texts, and the shares of the listed records are those of all. -/
structure Agrees : Prop where
  fetched : min limit values.dedup.length ≤ Search.absoluteMaxRows
  ties : ∀ a ∈ listed values limit, ∀ v ∈ values, values.count v = a.2 → (a.1 ≤ v ↔ str a.1 ≤ str v)
  shares : ∀ a ∈ listed values limit, share a.2 ((listed values limit).map Prod.snd).sum = share a.2 values.length

variable {str values limit}

omit [LinearOrder α] in
theorem written_injective (hstr : Function.Injective str) : Function.Injective (written str) := fun a b h => by
  rw [written, written, Prod.mk.injEq] at h
  exact Prod.ext (hstr h.1) h.2

/-- Different values have different texts, so that the count map has a key for each value. -/
theorem perm_written (hstr : Function.Injective str) : ((countBy values).map (written str)).Perm (countBy (values.map str)) :=
  countBy_map hstr values

theorem ranking_written (hstr : Function.Injective str) :
    (countBy (values.map str)).insertionSort Ranks = ((countBy values).insertionSort (RanksWritten str)).map (written str) := by
  rw [List.map_insertionSort (RanksWritten str) Ranks (written str) (countBy values) fun a _ b _ => Iff.rfl]
  exact (((List.perm_insertionSort _ _).trans (perm_written hstr).symm).trans (List.perm_insertionSort _ _).symm).eq_of_pairwise'
    (List.pairwise_insertionSort Ranks _) (List.pairwise_insertionSort Ranks _)

/-- The two list the same rows exactly when ties come out alike. -/
theorem listed_eq_iff (hstr : Function.Injective str) :
    listed values limit = ((countBy values).insertionSort (RanksWritten str)).take limit ↔
      ∀ a ∈ listed values limit, ∀ v ∈ values, values.count v = a.2 → (a.1 ≤ v ↔ str a.1 ≤ str v) := by
  have : Std.Antisymm (RanksWritten str) := ⟨fun _ _ hab hba => written_injective hstr (antisymm hab hba)⟩
  have hperm : ((countBy values).insertionSort Ranks).Perm ((countBy values).insertionSort (RanksWritten str)) :=
    (List.perm_insertionSort _ _).trans (List.perm_insertionSort _ _).symm
  rw [listed, take_eq_take_iff hperm (List.pairwise_insertionSort Ranks _) (List.pairwise_insertionSort (RanksWritten str) _)]
  refine forall₂_congr fun a _ => ?_
  constructor
  · intro h v hv hcount
    have hmem : (v, values.count v) ∈ (countBy values).insertionSort Ranks := by
      rw [List.mem_insertionSort, countBy]
      exact List.mem_map_of_mem ((List.mem_insertionSort _).2 (List.mem_dedup.2 hv))
    have hiff := h _ hmem
    simpa only [RanksWritten, Ranks, written, hcount, lt_self_iff_false, true_and, false_or] using hiff
  · intro h b hb
    rw [List.mem_insertionSort, countBy] at hb
    obtain ⟨v, hv, rfl⟩ := List.mem_map.1 hb
    have hties := h v (List.mem_dedup.1 ((List.mem_insertionSort _).1 hv))
    simp only [RanksWritten, Ranks, written]
    refine or_congr_right (and_congr_right fun hcount => hties hcount.symm)

omit [LinearOrder α] in
theorem sum_ranking : (((countBy (values.map str)).map Prod.snd)).sum = values.length := by
  rw [sum_countBy, List.length_map]

theorem topN_eq (hstr : Function.Injective str) :
    topN (countBy (values.map str)) limit none = (((countBy values).insertionSort (RanksWritten str)).take limit).map fun row =>
      { key := str row.1, count := row.2, percentage := share row.2 values.length } := by
  rw [topN, ranking_written hstr, ← List.map_take, List.map_map, Option.getD_none, sum_ranking]
  rfl

/-- The query and `top_n` give the same answer exactly when they agree on the rows and the shares. -/
theorem counts_eq_topN_iff (hstr : Function.Injective str) (values : List α) (limit : Nat) :
    counts str values limit = topN (countBy (values.map str)) limit none ↔ Agrees str values limit := by
  have hrows : Search.fetch 0 (listed values limit) = (listed values limit).take Search.absoluteMaxRows := by
    rw [Search.fetch, if_pos rfl, Nat.min_self]
  have hlength : (listed values limit).length = min limit values.dedup.length := by
    rw [listed, List.length_take, List.length_insertionSort, length_countBy]
  rw [topN_eq hstr]
  constructor
  · intro h
    -- as many rows are fetched as are ranked
    have hfetched : min limit values.dedup.length ≤ Search.absoluteMaxRows := by
      have hlen := congrArg List.length h
      rw [counts, ← listed, hrows, List.length_map, List.length_map, List.length_take, hlength, List.length_take,
        List.length_insertionSort, length_countBy] at hlen
      omega
    have hall : Search.fetch 0 (listed values limit) = listed values limit := by
      rw [hrows, List.take_of_length_le (hlength ▸ hfetched)]
    rw [counts, ← listed, hall] at h
    have hlisted : listed values limit = ((countBy values).insertionSort (RanksWritten str)).take limit := by
      refine (List.map_inj_right fun a b => @written_injective α str hstr a b).1 ?_
      have hkeys := congrArg (List.map fun item : CountItem => (item.key, item.count)) h
      rw [List.map_map, List.map_map] at hkeys
      exact hkeys
    refine ⟨hfetched, (listed_eq_iff hstr).1 hlisted, fun a ha => ?_⟩
    rw [← hlisted] at h
    have hitem := List.map_inj_left.1 h a ha
    exact congrArg CountItem.percentage hitem
  · rintro ⟨hfetched, hties, hshares⟩
    have hall : Search.fetch 0 (listed values limit) = listed values limit := by
      rw [hrows, List.take_of_length_le (hlength ▸ hfetched)]
    rw [counts, ← listed, hall, ← (listed_eq_iff hstr).2 hties]
    exact List.map_congr_left fun a ha => by rw [hshares a ha]

/-- With nothing left out, values ordered like their texts are listed alike. -/
theorem agrees_of_all (horder : ∀ a b, a ≤ b ↔ str a ≤ str b) (hall : values.dedup.length ≤ limit)
    (hfetched : values.dedup.length ≤ Search.absoluteMaxRows) : Agrees str values limit := by
  have hlisted : listed values limit = (countBy values).insertionSort Ranks := by
    rw [listed, List.take_of_length_le]
    rw [List.length_insertionSort, length_countBy]
    exact hall
  have hsum : ((listed values limit).map Prod.snd).sum = values.length := by
    rw [hlisted, ((List.perm_insertionSort _ _).map Prod.snd).sum_eq, sum_countBy]
  exact ⟨(Nat.min_le_right _ _).trans hfetched, fun _ _ _ _ _ => horder _ _, fun _ _ => by rw [hsum]⟩

end

def services : List Text := [Text.ofString "api", Text.ofString "api", Text.ofString "web"]

theorem counts_eq_topN_iff_services :
    counts id services 1 = topN (countBy (services.map id)) 1 none ↔ Agrees id services 1 :=
  counts_eq_topN_iff Function.injective_id services 1

/-- Of three records two are in the one service that is listed: to the query that is all. -/
theorem top_service_differs : counts id services 1 ≠ topN (countBy (services.map id)) 1 none := by
  have hquery : (counts id services 1).map (·.percentage) = [100] := by decide +kernel
  have htop : (topN (countBy (services.map id)) 1 none).map (·.percentage) ≠ [100] := by decide +kernel
  exact fun h => htop (h ▸ hquery)

end LogAnalytics.TopN
