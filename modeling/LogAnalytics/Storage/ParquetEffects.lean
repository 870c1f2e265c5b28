import LogAnalytics.Storage.Parquet
/-!
# What the Parquet store's calls do to the rows

A row handed to the store is first in an open writer (`openRows`) and, once its file is
published, visible. `append` adds rows to the open ones; closing a writer moves its rows to
the visible ones or drops them. No call touches a part it has no writer for.
-/
open LogAnalytics.Lib

namespace LogAnalytics.ParquetStore

variable {D E : Type} [DecidableEq D]

/-- The rows in the temporary file of a part. -/
def rowsAt (files : Files (DataPath D) (ParquetFile E)) (path : PartName D) : Multiset E :=
  files.part (fun _ f => (f.rows : Multiset E)) (.temp path)

/-- The rows in the files of the open writers. -/
def openRows (files : Files (DataPath D) (ParquetFile E)) (writers : List (PartName D)) : Multiset E :=
  (writers.map (rowsAt files)).sum

/-- The open writers are distinct, each has its temporary file, and none has published yet. -/
structure Open (files : Files (DataPath D) (ParquetFile E)) (writers : List (PartName D)) : Prop where
  nodup : writers.Nodup
  temp : ∀ w ∈ writers, ∃ f, files.lookup (.temp w) = some f
  unpublished : ∀ w ∈ writers, files.lookup (.final w) = none

theorem rowsAt_of_lookup {files : Files (DataPath D) (ParquetFile E)} {path : PartName D} {f : ParquetFile E}
    (h : files.lookup (.temp path) = some f) : rowsAt files path = f.rows :=
  Files.part_of_lookup h

theorem openRows_nil (files : Files (DataPath D) (ParquetFile E)) : openRows files [] = 0 := rfl

theorem openRows_cons (files : Files (DataPath D) (ParquetFile E)) (w : PartName D) (ws : List (PartName D)) :
    openRows files (w :: ws) = rowsAt files w + openRows files ws := by
  simp [openRows]

theorem openRows_append (files : Files (DataPath D) (ParquetFile E)) (ws vs : List (PartName D)) :
    openRows files (ws ++ vs) = openRows files ws + openRows files vs := by
  simp [openRows]

theorem openRows_congr {files files' : Files (DataPath D) (ParquetFile E)} {ws : List (PartName D)}
    (h : ∀ w ∈ ws, files'.lookup (.temp w) = files.lookup (.temp w)) : openRows files' ws = openRows files ws := by
  unfold openRows
  rw [List.map_congr_left fun w hw => ?_]
  simp only [rowsAt, Files.part, h w hw]

omit [DecidableEq D] in
theorem temp_ne {w path : PartName D} (h : w ≠ path) : DataPath.temp w ≠ .temp path := fun he =>
  h (DataPath.temp.inj he)

/-- Growing the file of one open writer grows the open rows. -/
theorem openRows_grow {files files' : Files (DataPath D) (ParquetFile E)} {ws : List (PartName D)}
    {path : PartName D} {rows : Multiset E} (hn : ws.Nodup) (hp : path ∈ ws)
    (hother : ∀ w, w ≠ path → files'.lookup (.temp w) = files.lookup (.temp w))
    (hpath : rowsAt files' path = rowsAt files path + rows) : openRows files' ws = openRows files ws + rows := by
  induction ws with
  | nil => cases hp
  | cons w ws ih =>
    obtain ⟨hw, hn⟩ := List.nodup_cons.1 hn
    rw [openRows_cons, openRows_cons]
    rcases List.mem_cons.1 hp with rfl | hp
    · have hrest : openRows files' ws = openRows files ws :=
        openRows_congr fun v hv => hother v (by rintro rfl; exact hw hv)
      rw [hpath, hrest, add_right_comm]
    · have hne : w ≠ path := by rintro rfl; exact hw hp
      have hsame : rowsAt files' w = rowsAt files w := by simp only [rowsAt, Files.part, hother w hne]
      rw [hsame, ih hn hp, add_assoc]

/-! ## Appending -/

/-- The fault is reached: the steps that open a writer are skipped when it is open. -/
def AppendRaises (fault : Option (AppendStep × Exn)) (isOpen : Prop) : Prop :=
  ∃ step exn, fault = some (step, exn) ∧ (isOpen → step ≠ .ensureDirectory ∧ step ≠ .openWriter)

/-- What appending rows for a run leaves. -/
structure Appended (s s' : ParquetStore D E) (run : String) (events : Multiset E) : Prop where
  opened : Open s'.files s'.writers
  visible : s'.visible = s.visible
  openRows : openRows s'.files s'.writers = openRows s.files s.writers + events
  finals : ∀ p, s'.files.lookup (.final p) = s.files.lookup (.final p)
  writers : ∀ w ∈ s'.writers, w ∈ s.writers ∨ w.2 = run
  grows : ∀ w ∈ s.writers, w ∈ s'.writers ∧ rowsAt s.files w ≤ rowsAt s'.files w

theorem Appended.refl {s : ParquetStore D E} (ho : Open s.files s.writers) (run : String) : Appended s s run 0 :=
  ⟨ho, rfl, (add_zero _).symm, fun _ => rfl, fun _ h => .inl h, fun _ h => ⟨h, le_refl _⟩⟩

theorem Appended.trans {s t u : ParquetStore D E} {run : String} {r₁ r₂ : Multiset E} (h₁ : Appended s t run r₁)
    (h₂ : Appended t u run r₂) : Appended s u run (r₁ + r₂) := by
  refine ⟨h₂.opened, h₂.visible.trans h₁.visible, ?_, fun p => (h₂.finals p).trans (h₁.finals p), fun w hw => ?_,
    fun w hw => ?_⟩
  · rw [h₂.openRows, h₁.openRows, add_assoc]
  · rcases h₂.writers w hw with h | h
    · exact h₁.writers w h
    · exact .inr h
  · obtain ⟨hm, hle⟩ := h₁.grows w hw
    obtain ⟨hm', hle'⟩ := h₂.grows w hm
    exact ⟨hm', le_trans hle hle'⟩

/-- Opening a writer for a part that is neither open nor published adds no row. -/
theorem Appended.opening {s : ParquetStore D E} {path : PartName D} (ho : Open s.files s.writers)
    (hp : s.files.lookup (.final path) = none) (hw : path ∉ s.writers) :
    Appended s { s with writers := s.writers ++ [path], files := s.files.insert (.temp path) {} } path.2 0 := by
  have hother : ∀ w, w ≠ path → (s.files.insert (.temp path) {}).lookup (.temp w) = s.files.lookup (.temp w) :=
    fun w hne => AList.lookup_insert_ne (temp_ne hne)
  have hfinal : ∀ w, (s.files.insert (.temp path) {}).lookup (.final w) = s.files.lookup (.final w) :=
    fun w => AList.lookup_insert_ne (by simp)
  have hne : ∀ w ∈ s.writers, w ≠ path := by rintro w hm rfl; exact hw hm
  constructor
  · constructor
    · refine List.nodup_append.2 ⟨ho.nodup, List.nodup_singleton path, ?_⟩
      rintro w hm v hv rfl
      exact hw (List.mem_singleton.1 hv ▸ hm)
    · intro w hm
      rcases List.mem_append.1 hm with hm | hm
      · obtain ⟨f, hf⟩ := ho.temp w hm
        exact ⟨f, by rw [← hf]; exact hother w (hne w hm)⟩
      · rw [List.mem_singleton.1 hm]
        exact ⟨{}, AList.lookup_insert _⟩
    · intro w hm
      rw [hfinal]
      rcases List.mem_append.1 hm with hm | hm
      · exact ho.unpublished w hm
      · rw [List.mem_singleton.1 hm]; exact hp
  · exact Files.total_insert_of_zero (fun _ => rfl) _ _
  · have hnew : rowsAt (s.files.insert (.temp path) {}) path = (0 : Multiset E) :=
      rowsAt_of_lookup (AList.lookup_insert _)
    rw [openRows_append, openRows_congr fun w hm => hother w (hne w hm), openRows_cons, hnew, openRows_nil,
      add_zero]
  · exact hfinal
  · intro w hm
    rcases List.mem_append.1 hm with hm | hm
    · exact .inl hm
    · exact .inr (by rw [List.mem_singleton.1 hm])
  · intro w hm
    refine ⟨List.mem_append_left _ hm, ?_⟩
    simp only [rowsAt, Files.part, hother w (hne w hm), le_refl]

/-- Every writer has rows to publish. -/
def Filled (files : Files (DataPath D) (ParquetFile E)) (ws : List (PartName D)) : Prop := ∀ w ∈ ws, rowsAt files w ≠ 0

/-- Rows written to an open part are open rows. -/
theorem Appended.rows {s : ParquetStore D E} {path : PartName D} (ho : Open s.files s.writers)
    (hw : path ∈ s.writers) (events : List E) :
    Appended s { s with files := addRows s.files path events } path.2 events ∧
    (events : Multiset E) ≤ rowsAt (addRows s.files path events) path := by
  obtain ⟨f, hf⟩ := ho.temp path hw
  have hadd : addRows s.files path events = s.files.insert (.temp path) { f with rows := f.rows ++ events } := by
    simp only [addRows, hf]
  have hother : ∀ w, w ≠ path → (addRows s.files path events).lookup (.temp w) = s.files.lookup (.temp w) :=
    fun w hne => by rw [hadd]; exact AList.lookup_insert_ne (temp_ne hne)
  have hfinal : ∀ w, (addRows s.files path events).lookup (.final w) = s.files.lookup (.final w) :=
    fun w => by rw [hadd]; exact AList.lookup_insert_ne (by simp)
  have hpath : rowsAt (addRows s.files path events) path = rowsAt s.files path + events := by
    rw [rowsAt_of_lookup (by rw [hadd]; exact AList.lookup_insert _), rowsAt_of_lookup hf]
    exact (Multiset.coe_add _ _).symm
  refine ⟨?_, by rw [hpath]; exact Multiset.le_add_left _ _⟩
  constructor
  · refine ⟨ho.nodup, fun w hm => ?_, fun w hm => by rw [hfinal]; exact ho.unpublished w hm⟩
    by_cases hne : w = path
    · subst hne
      exact ⟨_, by rw [hadd]; exact AList.lookup_insert _⟩
    · obtain ⟨g, hg⟩ := ho.temp w hm
      exact ⟨g, by rw [hother w hne]; exact hg⟩
  · simp only [ParquetStore.visible, hadd]
    exact Files.total_insert_of_zero (fun _ => rfl) _ _
  · exact openRows_grow ho.nodup hw hother hpath
  · exact hfinal
  · exact fun _ h => .inl h
  · intro w hm
    refine ⟨hm, ?_⟩
    by_cases hne : w = path
    · subst hne
      rw [hpath]
      exact Multiset.le_add_right _ _
    · simp only [rowsAt, Files.part, hother w hne, le_refl]

theorem openWriter_spec (fault : Option (AppendStep × Exn)) {s : ParquetStore D E} {path : PartName D}
    (ho : Open s.files s.writers) (hp : s.files.lookup (.final path) = none) :
    (∃ exn step e, openWriter fault s path = (.error exn, s) ∧ path ∉ s.writers ∧ fault = some (step, e) ∧
      (step = .ensureDirectory ∨ step = .openWriter)) ∨
    (∃ t, openWriter fault s path = (.ok (), t) ∧ Appended s t path.2 0 ∧
      t.writers = (if path ∈ s.writers then s.writers else s.writers ++ [path]) ∧
      (path ∉ s.writers → ∀ step e, fault = some (step, e) → step ≠ .ensureDirectory ∧ step ≠ .openWriter)) := by
  unfold openWriter
  by_cases hw : path ∈ s.writers
  · simp only [hw, if_true]
    exact .inr ⟨s, rfl, Appended.refl ho path.2, rfl, fun h => absurd trivial h⟩
  · simp only [hw, if_false]
    have hopen := Appended.opening ho hp hw
    rcases fault with _ | ⟨step, e⟩
    · exact .inr ⟨_, rfl, hopen, rfl, by simp⟩
    · cases step with
      | ensureDirectory => exact .inl ⟨_, _, _, rfl, not_false, rfl, .inl rfl⟩
      | openWriter => exact .inl ⟨_, _, _, rfl, not_false, rfl, .inr rfl⟩
      | toRows => exact .inr ⟨_, rfl, hopen, rfl, by simp⟩
      | toTable => exact .inr ⟨_, rfl, hopen, rfl, by simp⟩
      | writeTable => exact .inr ⟨_, rfl, hopen, rfl, by simp⟩

theorem append_spec (fault : Option (AppendStep × Exn)) {s : ParquetStore D E} {path : PartName D} (events : List E)
    (ho : Open s.files s.writers) (hp : s.files.lookup (.final path) = none) :
    (∃ exn, (append fault s path events).1 = .error exn ∧ AppendRaises fault (path ∈ s.writers) ∧
      Appended s (append fault s path events).2 path.2 0) ∨
    ((append fault s path events).1 = .ok () ∧ ¬ AppendRaises fault (path ∈ s.writers) ∧
      Appended s (append fault s path events).2 path.2 events ∧
      (append fault s path events).2.writers = (if path ∈ s.writers then s.writers else s.writers ++ [path]) ∧
      (events : Multiset E) ≤ rowsAt (append fault s path events).2.files path) := by
  unfold append
  rcases openWriter_spec fault ho hp with ⟨exn, step, e, hr, hw, hf, hstep⟩ | ⟨t, hr, ht, htw, hskip⟩
  · rw [hr]
    exact .inl ⟨exn, rfl, ⟨step, e, hf, fun h => absurd h hw⟩, Appended.refl ho path.2⟩
  · rw [hr]
    have hmem : path ∈ t.writers := by
      rw [htw]
      split
      · assumption
      · simp
    obtain ⟨hrows, hle⟩ := Appended.rows ht.opened hmem events
    have hdone : Appended s { t with files := addRows t.files path events } path.2 events := by
      have h := ht.trans hrows
      rwa [zero_add] at h
    rcases fault with _ | ⟨step, e⟩
    · have hno : ¬ AppendRaises none (path ∈ s.writers) := by rintro ⟨_, _, h, -⟩; cases h
      exact .inr ⟨rfl, hno, hdone, htw, hle⟩
    · cases step with
      | toRows => exact .inl ⟨_, rfl, ⟨_, _, rfl, fun _ => by simp⟩, ht⟩
      | toTable => exact .inl ⟨_, rfl, ⟨_, _, rfl, fun _ => by simp⟩, ht⟩
      | writeTable => exact .inl ⟨_, rfl, ⟨_, _, rfl, fun _ => by simp⟩, ht⟩
      | ensureDirectory =>
        refine .inr ⟨rfl, ?_, hdone, htw, hle⟩
        rintro ⟨step, e', h, hopen⟩
        cases h
        by_cases hw : path ∈ s.writers
        · exact (hopen hw).1 rfl
        · exact (hskip hw _ _ rfl).1 rfl
      | openWriter =>
        refine .inr ⟨rfl, ?_, hdone, htw, hle⟩
        rintro ⟨step, e', h, hopen⟩
        cases h
        by_cases hw : path ∈ s.writers
        · exact (hopen hw).2 rfl
        · exact (hskip hw _ _ rfl).2 rfl

/-! ## Writing a batch -/

/-- The writers after one for the part is made sure of. -/
def openAfter (ws : List (PartName D)) (path : PartName D) : List (PartName D) :=
  if path ∈ ws then ws else ws ++ [path]

/-- The writers after appending for the directories in turn. -/
def openAll (run : String) (ws : List (PartName D)) (ds : List D) : List (PartName D) :=
  ds.foldl (fun ws d => openAfter ws (d, run)) ws

/-- No append of the call raises; `ws` are the writers open before the `k`-th one. -/
def NeverRaises (faults : ParquetFaults) (run : String) : Nat → List (PartName D) → List D → Prop
  | _, _, [] => True
  | k, ws, d :: ds =>
    ¬ AppendRaises (faults.append k) ((d, run) ∈ ws) ∧ NeverRaises faults run (k + 1) (openAfter ws (d, run)) ds

theorem neverRaises_append (faults : ParquetFaults) (run : String) (ds es : List D) : ∀ (k : Nat)
    (ws : List (PartName D)), NeverRaises faults run k ws (ds ++ es) ↔
      NeverRaises faults run k ws ds ∧ NeverRaises faults run (k + ds.length) (openAll run ws ds) es := by
  induction ds with
  | nil => intro k ws; simp [NeverRaises, openAll]
  | cons d ds ih =>
    intro k ws
    simp only [List.cons_append, NeverRaises, ih, List.length_cons, openAll, List.foldl_cons, and_assoc,
      Nat.add_assoc, Nat.add_comm 1]

theorem Filled.append {s s' : ParquetStore D E} {path : PartName D} {events : List E} {rows : Multiset E}
    (hs : Filled s.files s.writers) (ha : Appended s s' path.2 rows)
    (hw : s'.writers = if path ∈ s.writers then s.writers else s.writers ++ [path]) (hne : events ≠ [])
    (hle : (events : Multiset E) ≤ rowsAt s'.files path) : Filled s'.files s'.writers := by
  intro w hm hz
  by_cases hpath : w = path
  · subst hpath
    rw [hz, Multiset.le_zero, Multiset.coe_eq_zero] at hle
    exact hne hle
  · have hold : w ∈ s.writers := by
      rw [hw] at hm
      split at hm
      · exact hm
      · simpa [hpath] using hm
    have hg := (ha.grows w hold).2
    rw [hz, Multiset.le_zero] at hg
    exact hs w hold hg

/-- The call raised at a bucket after appending those before it. -/
structure StoppedAt (faults : ParquetFaults) (run : String) (k : Nat) (s s' : ParquetStore D E)
    (pre : List (D × List E)) (b : D × List E) : Prop where
  before : NeverRaises faults run k s.writers (pre.map (·.1))
  raised : AppendRaises (faults.append (k + pre.length)) ((b.1, run) ∈ openAll run s.writers (pre.map (·.1)))
  appended : Appended s s' run (contents pre)

/-- The buckets are appended in order, up to the first that raises. -/
theorem appendBuckets_spec (faults : ParquetFaults) (run : String) (bs : List (D × List E)) : ∀ (s : ParquetStore D E)
    (k : Nat) (written : List (PartName D)), Open s.files s.writers →
    (∀ d, s.files.lookup (.final (d, run)) = none) →
    (∃ exn pre b post, (appendBuckets faults run s k bs written).1 = .error exn ∧ bs = pre ++ b :: post ∧
      StoppedAt faults run k s (appendBuckets faults run s k bs written).2 pre b) ∨
    (∃ w, (appendBuckets faults run s k bs written).1 = .ok w ∧ NeverRaises faults run k s.writers (bs.map (·.1)) ∧
      Appended s (appendBuckets faults run s k bs written).2 run (contents bs) ∧
      (appendBuckets faults run s k bs written).2.writers = openAll run s.writers (bs.map (·.1)) ∧
      ((∀ b ∈ bs, b.2 ≠ []) → Filled s.files s.writers →
        Filled (appendBuckets faults run s k bs written).2.files (appendBuckets faults run s k bs written).2.writers)) := by
  induction bs with
  | nil => intro s k written ho _; exact .inr ⟨written, rfl, trivial, Appended.refl ho run, rfl, fun _ h => h⟩
  | cons b bs ih =>
    intro s k written ho hf
    obtain ⟨d, events⟩ := b
    rw [appendBuckets]
    have hspec := append_spec (faults.append k) events ho (hf d)
    generalize append (faults.append k) s (d, run) events = r at hspec
    obtain ⟨r, t⟩ := r
    rcases hspec with ⟨exn, rfl, hraise, ht⟩ | ⟨rfl, hraise, ht, htw, hle⟩
    · exact .inl ⟨exn, [], (d, events), bs, rfl, rfl, trivial, hraise, ht⟩
    · have hft : ∀ d', t.files.lookup (.final (d', run)) = none := fun d' => by rw [ht.finals]; exact hf d'
      dsimp only
      rcases ih t (k + 1) (if (d, run) ∈ written then written else written ++ [(d, run)]) ht.opened hft with
        ⟨exn, pre, b, post, hr, rfl, hpre, hb, happ⟩ | ⟨w, hr, hnever, happ, hws, hfill⟩
      · refine .inl ⟨exn, (d, events) :: pre, b, post, hr, rfl, ⟨hraise, ?_⟩, ?_, ?_⟩
        · rw [openAfter, ← htw]; exact hpre
        · rw [List.length_cons, Nat.add_comm pre.length 1, ← Nat.add_assoc, List.map_cons, openAll, List.foldl_cons,
            openAfter, ← htw]
          exact hb
        · rw [contents_cons]; exact ht.trans happ
      · refine .inr ⟨w, hr, ⟨hraise, ?_⟩, ?_, ?_, fun hne hs => ?_⟩
        · rw [openAfter, ← htw]; exact hnever
        · rw [contents_cons]; exact ht.trans happ
        · rw [hws, List.map_cons, openAll, openAll, List.foldl_cons, openAfter, ← htw]
        · rw [List.forall_mem_cons] at hne
          exact hfill hne.2 (hs.append ht htw hne.1 hle)

/-- Everything `write` appends, bucket by bucket. -/
def buckets (c : ParquetConfig D E) (batches : List (List E)) : List (D × List E) :=
  batches.flatMap (groupBy c.partition)

theorem contents_buckets (c : ParquetConfig D E) (batches : List (List E)) :
    contents (buckets c batches) = (batches.flatten : Multiset E) := by
  induction batches with
  | nil => rfl
  | cons batch rest ih =>
    rw [buckets, List.flatMap_cons, contents_append, contents_groupBy, List.flatten_cons, ← Multiset.coe_add, ← ih]
    rfl

theorem buckets_nonempty (c : ParquetConfig D E) (batches : List (List E)) : ∀ b ∈ buckets c batches, b.2 ≠ [] := by
  intro b hb
  obtain ⟨batch, -, hb⟩ := List.mem_flatMap.1 hb
  exact groupBy_nonempty c.partition batch b hb

theorem writeBatches_spec (c : ParquetConfig D E) (faults : ParquetFaults) (run : String) (batches : List (List E)) :
    ∀ (s : ParquetStore D E) (k : Nat) (written : List (PartName D)), Open s.files s.writers →
    (∀ d, s.files.lookup (.final (d, run)) = none) →
    (∃ exn pre b post, (writeBatches c faults run s k batches written).1 = .error exn ∧
      buckets c batches = pre ++ b :: post ∧
      StoppedAt faults run k s (writeBatches c faults run s k batches written).2 pre b) ∨
    (∃ w, (writeBatches c faults run s k batches written).1 = .ok w ∧
      NeverRaises faults run k s.writers ((buckets c batches).map (·.1)) ∧
      Appended s (writeBatches c faults run s k batches written).2 run (contents (buckets c batches)) ∧
      (writeBatches c faults run s k batches written).2.writers =
        openAll run s.writers ((buckets c batches).map (·.1)) ∧
      (Filled s.files s.writers →
        Filled (writeBatches c faults run s k batches written).2.files
          (writeBatches c faults run s k batches written).2.writers)) := by
  induction batches with
  | nil =>
    intro s k written ho _
    have h := Appended.refl ho run
    exact .inr ⟨written, rfl, trivial, ⟨h.opened, h.visible, h.openRows, h.finals, h.writers, h.grows⟩, rfl, id⟩
  | cons batch rest ih =>
    intro s k written ho hf
    have hb : buckets c (batch :: rest) = groupBy c.partition batch ++ buckets c rest := List.flatMap_cons
    rw [writeBatches]
    have hspec := appendBuckets_spec faults run (groupBy c.partition batch) s k written ho hf
    generalize appendBuckets faults run s k (groupBy c.partition batch) written = r at hspec
    obtain ⟨r, t⟩ := r
    rcases hspec with ⟨exn, pre, b, post, rfl, hbs, hstop⟩ | ⟨w, rfl, hnever, ht, htw, hfill⟩
    · exact .inl ⟨exn, pre, b, post ++ buckets c rest, rfl, by rw [hb, hbs, List.append_assoc, List.cons_append], hstop⟩
    · have hft : ∀ d', t.files.lookup (.final (d', run)) = none := fun d' => by rw [ht.finals]; exact hf d'
      dsimp only
      rcases ih { t with recordsWritten := t.recordsWritten + batch.length } (k + (groupBy c.partition batch).length) w
        ht.opened hft with ⟨exn, pre, b, post, hr, hbs, hpre, hraise, happ⟩ | ⟨w', hr, hnever', happ, hws, hfill'⟩
      · refine .inl ⟨exn, groupBy c.partition batch ++ pre, b, post, hr, by rw [hb, hbs, List.append_assoc], ?_, ?_, ?_⟩
        · rw [List.map_append, neverRaises_append, List.length_map, ← htw]
          exact ⟨hnever, hpre⟩
        · rw [List.length_append, ← Nat.add_assoc, List.map_append, openAll, List.foldl_append]
          rw [openAll] at htw
          rw [← htw]
          exact hraise
        · rw [contents_append]
          have happ' : Appended t _ run (contents pre) :=
            ⟨happ.opened, happ.visible, happ.openRows, happ.finals, happ.writers, happ.grows⟩
          exact ht.trans happ'
      · refine .inr ⟨w', hr, ?_, ?_, ?_, fun hs => hfill' (hfill (groupBy_nonempty c.partition batch) hs)⟩
        · rw [hb, List.map_append, neverRaises_append, List.length_map, ← htw]
          exact ⟨hnever, hnever'⟩
        · rw [hb, contents_append]
          have happ' : Appended t _ run (contents (buckets c rest)) :=
            ⟨happ.opened, happ.visible, happ.openRows, happ.finals, happ.writers, happ.grows⟩
          exact ht.trans happ'
        · rw [hws, hb, List.map_append, openAll, openAll, List.foldl_append]
          rw [openAll] at htw
          rw [← htw]

/-! ## Publishing -/

/-- What closing writers leaves: `ws` are the writers still open. -/
structure Finalised (files files' : Files (DataPath D) (ParquetFile E)) (closed ws : List (PartName D)) : Prop where
  opened : Open files' ws
  temps : ∀ w ∈ ws, files'.lookup (.temp w) = files.lookup (.temp w)
  finals : ∀ w, w ∉ closed → files'.lookup (.final w) = files.lookup (.final w)

/-- The fault is reached when a writer without a published file is closed. -/
def FinaliseRaises (fault : Option (FinaliseStep × Exn)) (exn : Exn) : Prop :=
  ∃ step, fault = some (step, exn) ∧ step ≠ .unlink

/-- Whoever touches only the files of one part has closed at most that part. -/
theorem Finalised.of_frame {files files' : Files (DataPath D) (ParquetFile E)} {path : PartName D}
    {ws : List (PartName D)} (ho : Open files (path :: ws))
    (h : ∀ p, p ≠ .temp path → p ≠ .final path → files'.lookup p = files.lookup p) :
    Finalised files files' [path] ws := by
  obtain ⟨hp, hn⟩ := List.nodup_cons.1 ho.nodup
  have hne : ∀ w ∈ ws, w ≠ path := by rintro w hw rfl; exact hp hw
  have htemp : ∀ w ∈ ws, files'.lookup (.temp w) = files.lookup (.temp w) :=
    fun w hw => h _ (temp_ne (hne w hw)) (by simp)
  have hfinal : ∀ w, w ≠ path → files'.lookup (.final w) = files.lookup (.final w) := by
    intro w hw
    exact h _ (by simp) fun he => hw (DataPath.final.inj he)
  refine ⟨⟨hn, fun w hw => ?_, fun w hw => ?_⟩, htemp, fun w hw => hfinal w (by simpa using hw)⟩
  · rw [htemp w hw]; exact ho.temp w (List.mem_cons_of_mem _ hw)
  · rw [hfinal w (hne w hw)]; exact ho.unpublished w (List.mem_cons_of_mem _ hw)

/-- Closing a writer publishes its rows, or raises and publishes nothing. -/
theorem finalise_spec (fault : Option (FinaliseStep × Exn)) {files : Files (DataPath D) (ParquetFile E)}
    {path : PartName D} {ws : List (PartName D)} (ho : Open files (path :: ws)) :
    ((∃ exn, (finalise fault files path).1 = .error exn ∧ FinaliseRaises fault exn ∧
        (finalise fault files path).2.total readable = files.total readable) ∨
      ((finalise fault files path).1 = .ok () ∧ (∀ exn, ¬ FinaliseRaises fault exn) ∧
        (finalise fault files path).2.total readable = files.total readable + rowsAt files path)) ∧
    Finalised files (finalise fault files path).2 [path] ws := by
  obtain ⟨f, hf⟩ := ho.temp path List.mem_cons_self
  have hfinal := ho.unpublished path List.mem_cons_self
  have hcomplete : complete files path = files.insert (.temp path) { f with complete := true } := by
    simp only [complete, hf]
  have htemp : (complete files path).lookup (.temp path) = some { f with complete := true } := by
    rw [hcomplete]; exact AList.lookup_insert _
  have hfree : (complete files path).lookup (.final path) = none := by
    rw [hcomplete, AList.lookup_insert_ne (by simp), hfinal]
  have hsame : (complete files path).total readable = files.total readable := by
    rw [hcomplete]; exact Files.total_insert_of_zero (fun _ => rfl) _ _
  have hframe : ∀ p, p ≠ .temp path → (complete files path).lookup p = files.lookup p := by
    intro p hp; rw [hcomplete]; exact AList.lookup_insert_ne hp
  -- the file is complete and its final path free: what is left is the rename
  have hmoved : ((complete files path).rename (.temp path) (.final path)).total readable =
      files.total readable + rowsAt files path := by
    rw [Files.total_rename (fun _ => rfl) htemp hfree (by simp), hsame, rowsAt_of_lookup hf]
    rfl
  have hdone : Finalised files ((complete files path).rename (.temp path) (.final path)) [path] ws :=
    Finalised.of_frame ho fun p h1 h2 => by rw [Files.lookup_rename_of_ne h1 h2, hframe p h1]
  have hkept : Finalised files (complete files path) [path] ws := Finalised.of_frame ho fun p h1 _ => hframe p h1
  have hreplace : ∀ fault : Option (FinaliseStep × Exn), (∀ exn, fault ≠ some (.close, exn)) →
      (∀ exn, fault ≠ some (.probe, exn)) → finalise fault files path = replace fault (complete files path) path := by
    intro fault hc hp
    rcases fault with _ | ⟨step, exn⟩
    · simp [finalise, htemp, hfree]
    · cases step with
      | close => exact absurd rfl (hc exn)
      | probe => exact absurd rfl (hp exn)
      | unlink => simp [finalise, htemp, hfree]
      | replace => simp [finalise, htemp, hfree]
  rcases fault with _ | ⟨step, exn⟩
  · rw [hreplace none (by simp) (by simp)]
    refine ⟨.inr ⟨rfl, ?_, hmoved⟩, hdone⟩
    rintro exn ⟨_, h, -⟩
    cases h
  · cases step with
    | close =>
      refine ⟨.inl ⟨exn, rfl, ⟨_, rfl, by simp⟩, rfl⟩, Finalised.of_frame ho fun _ _ _ => rfl⟩
    | probe => exact ⟨.inl ⟨exn, rfl, ⟨_, rfl, by simp⟩, hsame⟩, hkept⟩
    | unlink =>
      rw [hreplace _ (by simp) (by simp)]
      refine ⟨.inr ⟨rfl, ?_, hmoved⟩, hdone⟩
      rintro exn' ⟨_, h, hne⟩
      cases h
      exact hne rfl
    | replace =>
      rw [hreplace _ (by simp) (by simp)]
      exact ⟨.inl ⟨exn, rfl, ⟨_, rfl, by simp⟩, hsame⟩, hkept⟩

theorem Finalised.trans {f₁ f₂ f₃ : Files (DataPath D) (ParquetFile E)} {path : PartName D} {ws vs : List (PartName D)}
    (h₁ : Finalised f₁ f₂ [path] ws) (h₂ : Finalised f₂ f₃ ws vs) (hsub : ∀ w ∈ vs, w ∈ ws) :
    Finalised f₁ f₃ (path :: ws) vs := by
  refine ⟨h₂.opened, fun w hw => ?_, fun w hw => ?_⟩
  · rw [h₂.temps w hw, h₁.temps w (hsub w hw)]
  · rw [List.mem_cons, not_or] at hw
    rw [h₂.finals w hw.2, h₁.finals w (by simpa using hw.1)]

/-- Closing the writers publishes nothing but their rows, and all of them when it returns. -/
theorem flushWriters_spec (faults : ParquetFaults) (ws : List (PartName D)) : ∀ (k : Nat)
    (files : Files (DataPath D) (ParquetFile E)) (errors : List String), Open files ws →
    let r := flushWriters faults k files ws errors
    Finalised files r.2.1 ws r.2.2 ∧ (∀ w ∈ r.2.2, w ∈ ws) ∧ files.total readable ≤ r.2.1.total readable ∧
    (r.1 = .ok () → errors = [] ∧ r.2.2 = [] ∧ r.2.1.total readable = files.total readable + openRows files ws) := by
  induction ws with
  | nil =>
    intro k files errors ho
    refine ⟨⟨ho, fun _ _ => rfl, fun _ _ => rfl⟩, by simp [flushWriters], le_refl _, fun h => ?_⟩
    have he : errors = [] := by
      by_contra hne
      simp [flushWriters, hne] at h
    exact ⟨he, rfl, (add_zero _).symm⟩
  | cons path ws ih =>
    intro k files errors ho
    obtain ⟨hcase, hfin⟩ := finalise_spec (faults.finalise k) ho
    have hrest : openRows (finalise (faults.finalise k) files path).2 ws = openRows files ws :=
      openRows_congr hfin.temps
    rw [flushWriters]
    generalize finalise (faults.finalise k) files path = r at hcase hfin hrest
    obtain ⟨r, files'⟩ := r
    rcases hcase with ⟨exn, rfl, -, htotal⟩ | ⟨rfl, -, htotal⟩
    · dsimp only at htotal ⊢
      by_cases hos : exn.isOSError = true
      · rw [if_pos hos]
        obtain ⟨h1, h2, h3, h4⟩ := ih (k + 1) files' (errors ++ [exn.msg]) hfin.opened
        refine ⟨hfin.trans h1 h2, fun w hw => List.mem_cons_of_mem _ (h2 w hw), by rw [← htotal]; exact h3, fun h => ?_⟩
        exact absurd (h4 h).1 (by simp)
      · rw [if_neg hos]
        refine ⟨⟨hfin.opened, hfin.temps, fun w hw => hfin.finals w ?_⟩, fun w hw => List.mem_cons_of_mem _ hw,
          by rw [htotal], by simp⟩
        simp only [List.mem_cons, not_or] at hw
        simpa using hw.1
    · dsimp only at htotal ⊢
      obtain ⟨h1, h2, h3, h4⟩ := ih (k + 1) files' errors hfin.opened
      refine ⟨hfin.trans h1 h2, fun w hw => List.mem_cons_of_mem _ (h2 w hw), ?_, fun h => ?_⟩
      · refine le_trans ?_ h3
        rw [htotal]
        exact Multiset.le_add_right _ _
      · obtain ⟨h5, h6, h7⟩ := h4 h
        refine ⟨h5, h6, ?_⟩
        rw [h7, htotal, openRows_cons]
        rw [show openRows files' ws = openRows files ws from hrest, add_assoc]

/-- Each of the `n` writers from the `k`-th on is dropped: an `OSError`, or at the last one
any exception, is raised before its file has its final name. -/
def Dropped (faults : ParquetFaults) : Nat → Nat → Prop
  | _, 0 => True
  | k, n + 1 => ∃ exn, FinaliseRaises (faults.finalise k) exn ∧ (n = 0 ∨ exn.isOSError = true) ∧ Dropped faults (k + 1) n

/-- Nothing is published and nothing left open exactly when every writer is dropped. -/
theorem flushWriters_dropped (faults : ParquetFaults) (ws : List (PartName D)) : ∀ (k : Nat)
    (files : Files (DataPath D) (ParquetFile E)) (errors : List String), Open files ws →
    Filled files ws →
    let r := flushWriters faults k files ws errors
    (r.2.1.total readable = files.total readable ∧ openRows r.2.1 r.2.2 = 0) ↔ Dropped faults k ws.length := by
  induction ws with
  | nil =>
    intro k files errors _ _
    exact ⟨fun _ => trivial, fun _ => ⟨rfl, rfl⟩⟩
  | cons path ws ih =>
    intro k files errors ho hrows
    obtain ⟨hcase, hfin⟩ := finalise_spec (faults.finalise k) ho
    have hrest : ∀ w ∈ ws, rowsAt (finalise (faults.finalise k) files path).2 w = rowsAt files w := by
      intro w hw
      simp only [rowsAt, Files.part, hfin.temps w hw]
    rw [flushWriters]
    generalize finalise (faults.finalise k) files path = r at hcase hfin hrest
    obtain ⟨r, files'⟩ := r
    have hrows' : Filled files' ws := fun w hw => by
      rw [show rowsAt files' w = rowsAt files w from hrest w hw]
      exact hrows w (List.mem_cons_of_mem _ hw)
    rw [List.length_cons, Dropped]
    rcases hcase with ⟨exn, rfl, hraise, htotal⟩ | ⟨rfl, hnone, htotal⟩
    · have huniq : ∀ exn', FinaliseRaises (faults.finalise k) exn' → exn' = exn := by
        rintro exn' ⟨_, h, -⟩
        obtain ⟨_, h', -⟩ := hraise
        rw [h] at h'
        cases h'; rfl
      dsimp only at htotal ⊢
      by_cases hos : exn.isOSError = true
      · rw [if_pos hos, ← htotal]
        have h := ih (k + 1) files' (errors ++ [exn.msg]) hfin.opened hrows'
        refine h.trans ⟨fun hd => ⟨exn, hraise, .inr hos, hd⟩, ?_⟩
        rintro ⟨_, -, -, hd⟩
        exact hd
      · -- the exception leaves at once, with the other writers still open
        rw [if_neg hos, htotal]
        constructor
        · rintro ⟨-, hopen⟩
          have hnil : ws = [] := by
            cases ws with
            | nil => rfl
            | cons v vs =>
              exfalso
              have hz : rowsAt files' v + openRows files' vs = 0 := by rw [← openRows_cons]; exact hopen
              exact hrows' v List.mem_cons_self (Multiset.le_zero.1 (hz ▸ Multiset.le_add_right _ _))
          subst hnil
          exact ⟨exn, hraise, .inl rfl, trivial⟩
        · rintro ⟨exn', hr', hlast, -⟩
          rw [huniq exn' hr'] at hlast
          have hnil : ws = [] := List.length_eq_zero_iff.1 (hlast.resolve_right hos)
          subst hnil
          exact ⟨rfl, rfl⟩
    · constructor
      · rintro ⟨hsame, -⟩
        exfalso
        obtain ⟨-, -, hle, -⟩ := flushWriters_spec faults ws (k + 1) files' errors hfin.opened
        have hge : files.total readable + rowsAt files path ≤ files.total readable + 0 := by
          rw [← htotal, add_zero, ← hsame]
          exact hle
        exact hrows path List.mem_cons_self (Multiset.le_zero.1 (le_of_add_le_add_left hge))
      · rintro ⟨exn, hr, -⟩
        exact absurd hr (hnone exn)

end LogAnalytics.ParquetStore
