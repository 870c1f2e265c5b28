import LogAnalytics.Search.Service
/-!
# The NDJSON export

The export reads page after page of a search. A page near the limit is smaller than the ones
before it, and its offset, the page's number times its own size, is then no longer the number
of rows emitted.
-/

namespace LogAnalytics.Search

variable {α β : Type}

/-- `page_size` of the export. -/
def exportPageSize (s : SearchSettings) : Nat := min 1000 s.maxPageSize

/-- The loop of `generate`. -/
def generate (s : SearchSettings) (serialise : α → β) (ordered : List α) (limit page emitted : Nat) : List β :=
  if emitted < limit then
    let result := search s serialise ordered page (min (exportPageSize s) (limit - emitted)) false
    if result.items = [] then []
    else result.items ++ generate s serialise ordered limit (page + 1) (emitted + result.items.length)
  else []
termination_by limit - emitted
decreasing_by
  next hlt hne =>
    have hpos : 0 < result.items.length := List.length_pos_iff.2 hne
    change limit - (emitted + result.items.length) < limit - emitted
    omega

/-- The lines `export_logs` streams. -/
def exportLogs (s : SearchSettings) (serialise : α → β) (ordered : List α) (limit : Nat) : List β :=
  generate s serialise ordered limit 1 0

/-- The export of `n` rows is complete: no page is smaller than the one before it, or the
smaller one starts behind the last row. -/
def Tiles (p limit n : Nat) : Prop :=
  if limit ≤ n then p ∣ limit ∨ limit < p
  else (n ≤ limit / p * p ∨ limit < p) ∧ (p ≤ limit - n ∨ n ≤ (n + p - 1) / p * (limit - n))

/-! ## One page -/

theorem exportPageSize_pos (s : SearchSettings) : 0 < exportPageSize s := by
  have := s.pos
  unfold exportPageSize
  omega

theorem queryLogs_eq {limit : Nat} (hpos : 0 < limit) (hle : limit ≤ absoluteMaxRows) (ordered : List α) (offset : Nat) :
    queryLogs ordered limit offset = (ordered.drop offset).take limit := by
  rw [queryLogs, fetch, if_neg (by omega), min_eq_left hle, List.take_take, min_self]

/-- The rows of one page, whose size is `m`. -/
theorem search_items (s : SearchSettings) (serialise : α → β) (ordered : List α) (k m : Nat) (hpos : 0 < m)
    (hle : m ≤ exportPageSize s) :
    (search s serialise ordered (k + 1) m false).items = ((ordered.drop (k * m)).take m).map serialise := by
  have hmax : m ≤ s.maxPageSize := le_trans hle (min_le_right _ _)
  have habs : m ≤ absoluteMaxRows := le_trans hle (le_trans (min_le_left _ _) (by decide))
  have hsize : max 1 (min m s.maxPageSize) = m := by omega
  have hpage : max 1 (k + 1) - 1 = k := by omega
  simp only [search, hsize, hpage, queryLogs_eq hpos habs]

section
variable (s : SearchSettings) (serialise : α → β) (ordered : List α) (limit : Nat)

theorem generate_done {page emitted : Nat} (h : limit ≤ emitted) : generate s serialise ordered limit page emitted = [] := by
  rw [generate, if_neg (by omega)]

/-- One turn of the loop. -/
theorem generate_page {k emitted m : Nat} (hlt : emitted < limit) (hm : m = min (exportPageSize s) (limit - emitted)) :
    generate s serialise ordered limit (k + 1) emitted =
      ((ordered.drop (k * m)).take m).map serialise ++
        if ordered.length ≤ k * m then []
        else generate s serialise ordered limit (k + 2) (emitted + min m (ordered.length - k * m)) := by
  have hp := exportPageSize_pos s
  have hitems := search_items s serialise ordered k m (by omega) (by omega)
  rw [generate, if_pos hlt, ← hm]
  dsimp only
  rw [hitems]
  by_cases hend : ordered.length ≤ k * m
  · rw [if_pos hend, List.drop_eq_nil_of_le hend, List.take_nil, List.map_nil, if_pos rfl, List.append_nil]
  · have hne : ((ordered.drop (k * m)).take m).map serialise ≠ [] := by
      rw [← List.length_pos_iff, List.length_map, List.length_take, List.length_drop]
      omega
    rw [if_neg hne, if_neg hend, List.length_map, List.length_take, List.length_drop]

/-- The pages that are full before the limit is near. -/
theorem generate_full (j : Nat) (hlimit : j * exportPageSize s ≤ limit) (hrows : j * exportPageSize s ≤ ordered.length) :
    exportLogs s serialise ordered limit =
      (ordered.take (j * exportPageSize s)).map serialise ++
        generate s serialise ordered limit (j + 1) (j * exportPageSize s) := by
  induction j with
  | zero => simp [exportLogs]
  | succ j ih =>
    have hp := exportPageSize_pos s
    rw [Nat.succ_mul] at hlimit hrows ⊢
    have hm : exportPageSize s = min (exportPageSize s) (limit - j * exportPageSize s) := by omega
    rw [ih (by omega) (by omega), generate_page s serialise ordered limit (by omega) hm, if_neg (by omega),
      ← List.append_assoc, ← List.map_append, ← List.take_add,
      show min (exportPageSize s) (ordered.length - j * exportPageSize s) = exportPageSize s by omega]

/-- The rows end before the limit: they are all emitted, by `k` pages. -/
theorem exportLogs_all {k : Nat} (hk : k = (ordered.length + exportPageSize s - 1) / exportPageSize s)
    (hlt : ordered.length < limit)
    (hfull : ordered.length ≤ limit / exportPageSize s * exportPageSize s ∨ limit < exportPageSize s) :
    exportLogs s serialise ordered limit =
      ordered.map serialise ++ generate s serialise ordered limit (k + 1) ordered.length := by
  have hp := exportPageSize_pos s
  have hdiv := Nat.div_add_mod ordered.length (exportPageSize s)
  have hmod := Nat.mod_lt ordered.length hp
  have hq := Nat.div_mul_le_self limit (exportPageSize s)
  obtain ⟨p, hpe⟩ : ∃ p, exportPageSize s = p := ⟨_, rfl⟩
  obtain ⟨j, hj⟩ : ∃ j, ordered.length / p = j := ⟨_, rfl⟩
  rw [hpe] at hk hfull hdiv hmod hp hq
  rw [hj, Nat.mul_comm] at hdiv
  have hrows : exportLogs s serialise ordered limit =
      (ordered.take (j * p)).map serialise ++ generate s serialise ordered limit (j + 1) (j * p) := by
    have h := generate_full s serialise ordered limit j (by rw [hpe]; omega) (by rw [hpe]; omega)
    rwa [hpe] at h
  rw [hrows]
  by_cases hr : ordered.length % p = 0
  · -- the last page is full
    have hlen : ordered.length = j * p := by omega
    have hkj : k = j := by
      rw [hk, hlen, Nat.add_sub_assoc hp, Nat.mul_comm, Nat.mul_add_div hp, Nat.div_eq_of_lt (by omega), Nat.add_zero]
    rw [← hlen, List.take_length, hkj]
  · have hkj : k = j + 1 := by
      rw [hk, show ordered.length + p - 1 = p * (j + 1) + (ordered.length % p - 1) by rw [Nat.mul_add, Nat.mul_comm]; omega,
        Nat.mul_add_div hp, Nat.div_eq_of_lt (by omega), Nat.add_zero]
    obtain ⟨m, hm⟩ : ∃ m, m = min p (limit - j * p) := ⟨_, rfl⟩
    have hsize : j * m = j * p ∧ ordered.length - j * p ≤ m := by
      rcases hfull with hfull | hshort
      · have hjq : j + 1 ≤ limit / p := by
          by_contra hge
          have := Nat.mul_le_mul_right p (Nat.le_of_lt_succ (Nat.lt_of_not_le hge))
          omega
        have := Nat.mul_le_mul_right p hjq
        rw [Nat.add_mul, Nat.one_mul] at this
        have hmp : m = p := by omega
        exact ⟨by rw [hmp], by omega⟩
      · have hj0 : j = 0 := by
          rw [← hj]
          exact Nat.div_eq_of_lt (by omega)
        subst hj0
        exact ⟨by simp, by omega⟩
    rw [generate_page s serialise ordered limit (m := m) (by omega) (by rw [hpe]; exact hm), hsize.1, if_neg (by omega),
      List.take_of_length_le (l := ordered.drop (j * p)) (by rw [List.length_drop]; exact hsize.2), ← List.append_assoc, ← List.map_append,
      List.take_append_drop, hkj, show j * p + min m (ordered.length - j * p) = ordered.length by omega]

/-- Behind the last row, the export ends when the next page starts there too. -/
theorem generate_end {k : Nat} (hlt : ordered.length < limit) (hk : ordered.length ≤ k * exportPageSize s) :
    generate s serialise ordered limit (k + 1) ordered.length = [] ↔
      exportPageSize s ≤ limit - ordered.length ∨ ordered.length ≤ k * (limit - ordered.length) := by
  have hp := exportPageSize_pos s
  obtain ⟨m, hm⟩ : ∃ m, m = min (exportPageSize s) (limit - ordered.length) := ⟨_, rfl⟩
  have hempty : generate s serialise ordered limit (k + 1) ordered.length = [] ↔ ordered.length ≤ k * m := by
    rw [generate_page s serialise ordered limit hlt hm, List.append_eq_nil_iff, List.map_eq_nil_iff,
      List.take_eq_nil_iff, List.drop_eq_nil_iff]
    constructor
    · rintro ⟨h | h, -⟩
      · omega
      · exact h
    · intro h
      exact ⟨.inr h, if_pos h⟩
  rw [hempty]
  rcases Nat.le_total (exportPageSize s) (limit - ordered.length) with h | h
  · rw [hm, min_eq_left h]
    exact ⟨fun _ => .inl h, fun _ => hk⟩
  · rw [hm, min_eq_right h]
    constructor
    · exact .inr
    · rintro (h' | h')
      · rwa [Nat.le_antisymm h' h] at hk
      · exact h'

/-- A smaller page behind a full one, with rows left to emit, starts at a row that was emitted. -/
theorem generate_repeats (hr : limit % exportPageSize s ≠ 0)
    (hrows : limit / exportPageSize s * exportPageSize s < ordered.length) :
    (exportLogs s serialise ordered limit)[limit / exportPageSize s * exportPageSize s]? =
      (ordered.map serialise)[limit / exportPageSize s * (limit % exportPageSize s)]? := by
  have hp := exportPageSize_pos s
  have hdiv := Nat.div_add_mod limit (exportPageSize s)
  have hmod := Nat.mod_lt limit hp
  rw [Nat.mul_comm] at hdiv
  have hoffset := Nat.mul_le_mul_left (limit / exportPageSize s) (Nat.le_of_lt hmod)
  rw [generate_full s serialise ordered limit _ (by omega) (Nat.le_of_lt hrows),
    generate_page s serialise ordered limit (m := limit % exportPageSize s) (by omega) (by omega),
    List.getElem?_append_right (by rw [List.length_map, List.length_take]; omega), List.length_map, List.length_take,
    Nat.min_eq_left (Nat.le_of_lt hrows), Nat.sub_self,
    List.getElem?_append_left (by rw [List.length_map, List.length_take, List.length_drop]; omega),
    List.getElem?_map, List.getElem?_map, List.getElem?_take_of_lt (by omega), List.getElem?_drop, Nat.add_zero]

end

/-! ## The stream -/

section
variable (s : SearchSettings) (serialise : α → β) (ordered : List α) (limit : Nat)

/-- It then emits a row in the place of another one. -/
theorem exportLogs_zipIdx_wrong (hq : exportPageSize s ≤ limit) (hr : limit % exportPageSize s ≠ 0)
    (hrows : limit / exportPageSize s * exportPageSize s < ordered.length) :
    exportLogs s (Prod.map serialise id) ordered.zipIdx limit ≠
      (ordered.zipIdx.take limit).map (Prod.map serialise id) := by
  have hp := exportPageSize_pos s
  have hmod := Nat.mod_lt limit hp
  have hdiv := Nat.div_add_mod limit (exportPageSize s)
  have hpos : 0 < limit / exportPageSize s := Nat.div_pos hq hp
  intro h
  have hplace := congrArg (·[limit / exportPageSize s * exportPageSize s]?) h
  have hlt := Nat.mul_lt_mul_of_pos_left hmod hpos
  rw [Nat.mul_comm] at hdiv
  rw [generate_repeats s _ _ limit hr (by rwa [List.length_zipIdx]), List.getElem?_map, List.getElem?_map,
    List.getElem?_take_of_lt (by omega), List.getElem?_zipIdx, List.getElem?_zipIdx,
    List.getElem?_eq_getElem hrows, List.getElem?_eq_getElem (Nat.lt_trans hlt hrows)] at hplace
  simp only [Option.map_some, Option.some.injEq, Prod.map_apply, Prod.mk.injEq, id_eq, Nat.zero_add] at hplace
  omega

/-- The stream is the first `limit` rows, each told by its place in the ordered result, exactly
when the pages tile it. -/
theorem export_complete :
    exportLogs s (Prod.map serialise id) ordered.zipIdx limit =
        (ordered.zipIdx.take limit).map (Prod.map serialise id) ↔
      Tiles (exportPageSize s) limit ordered.length := by
  have hp := exportPageSize_pos s
  have hdiv := Nat.div_add_mod limit (exportPageSize s)
  have hmod := Nat.mod_lt limit hp
  rw [Nat.mul_comm] at hdiv
  have hlen : ordered.zipIdx.length = ordered.length := List.length_zipIdx
  unfold Tiles
  by_cases hn : limit ≤ ordered.length
  · rw [if_pos hn]
    by_cases hr : limit % exportPageSize s = 0
    · have hq : limit / exportPageSize s * exportPageSize s = limit := by omega
      have h := generate_full s (Prod.map serialise id) ordered.zipIdx limit (limit / exportPageSize s) (by omega) (by omega)
      rw [h, hq, generate_done s _ _ limit (le_refl _), List.append_nil]
      exact ⟨fun _ => .inl (Nat.dvd_of_mod_eq_zero hr), fun _ => rfl⟩
    · rcases Nat.lt_or_ge limit (exportPageSize s) with hshort | hlong
      · refine ⟨fun _ => .inr hshort, fun _ => ?_⟩
        rcases Nat.eq_zero_or_pos limit with h0 | hpos
        · rw [exportLogs, generate_done s _ _ limit (by omega), h0]
          rfl
        · rw [exportLogs, generate_page s _ _ limit (k := 0) (m := limit) hpos (by omega), Nat.zero_mul, if_neg (by omega),
            generate_done s _ _ limit (by omega), List.append_nil, List.drop_zero]
      · have hwrong := exportLogs_zipIdx_wrong s serialise ordered limit hlong hr (by omega)
        refine ⟨fun h => absurd h hwrong, ?_⟩
        rintro (h | h)
        · exact absurd (Nat.mod_eq_zero_of_dvd h) hr
        · omega
  · rw [if_neg hn, List.take_of_length_le (by omega)]
    by_cases hfull : ordered.length ≤ limit / exportPageSize s * exportPageSize s ∨ limit < exportPageSize s
    · have hceil : ordered.length ≤ (ordered.length + exportPageSize s - 1) / exportPageSize s * exportPageSize s := by
        have := Nat.lt_div_mul_add (a := ordered.length + exportPageSize s - 1) hp
        omega
      have hall := exportLogs_all s (Prod.map serialise id) ordered.zipIdx limit rfl (by omega) (by rwa [hlen])
      have hend := generate_end s (Prod.map serialise id) ordered.zipIdx limit
        (k := (ordered.length + exportPageSize s - 1) / exportPageSize s) (by omega) (by rwa [hlen])
      rw [hlen] at hall hend
      rw [hall, List.append_right_eq_self, hend, and_iff_right hfull]
    · have hwrong := exportLogs_zipIdx_wrong s serialise ordered limit (by omega) ?_ (by omega)
      · rw [List.take_of_length_le (by omega)] at hwrong
        exact ⟨fun h => absurd h hwrong, fun h => absurd h.1 hfull⟩
      · intro hr
        omega

end

/-- Two rows and a limit of three: the last row is streamed twice. -/
theorem export_repeats_row :
    exportLogs ⟨1000, by decide, by decide, 5000⟩ (Prod.map id id) ["a", "b"].zipIdx 3 ≠
      (["a", "b"].zipIdx.take 3).map (Prod.map id id) := by
  have hpages : exportLogs ⟨1000, by decide, by decide, 5000⟩ (Prod.map id id) ["a", "b"].zipIdx 3 =
      [("a", 0), ("b", 1), ("b", 1)] := by
    rw [exportLogs, generate_page _ _ _ _ (k := 0) (m := 3) (by decide) rfl,
      generate_page _ _ _ _ (k := 1) (m := 1) (by decide) rfl, generate_done _ _ _ _ (by decide)]
    rfl
  rw [hpages]
  decide

end LogAnalytics.Search
