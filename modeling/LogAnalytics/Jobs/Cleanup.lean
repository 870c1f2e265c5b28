import LogAnalytics.Storage.Pruning
/-!
# Retention

`cleanup_job` over the files of one layer. It removes a partition directory whose start is
before the cutoff, so the events of a directory that straddles the cutoff go with the old ones.
-/
open LogAnalytics.Lib LogAnalytics.Lib.Calendar LogAnalytics.Paths LogAnalytics.Partitioning

namespace LogAnalytics.Cleanup

/-- A regular file: what `stat` says of it, and the times of the events in it. -/
structure DataFile where
  path : Path
  size : Nat
  events : List Clock

/-- The directories of the settings. -/
structure Layers where
  dataRoot : Path
  rawPath : Path
  processedPath : Path
  analyticsPath : Path
  rejectedPath : Path

def Layers.root (s : Layers) (layer : String) : Option Path :=
  if layer = "raw" then some s.rawPath
  else if layer = "processed" then some s.processedPath
  else if layer = "analytics" then some s.analyticsPath
  else if layer = "rejected" then some s.rejectedPath
  else none

/-- What the job returns. -/
structure Report where
  layer : String
  retentionDays : Int
  dryRun : Bool
  partitionsRemoved : Nat
  bytesFreed : Nat
  partitions : List String

/-- `utcnow() - timedelta(days=retention_days)` -/
def cutoff (now : Clock) (retentionDays : Int) : Except Exn Clock :=
  if 999999999 < retentionDays.natAbs then
    .error ⟨.overflowError, s!"days={retentionDays}; must have magnitude <= 999999999"⟩
  else now.add (-(retentionDays * dayMicros))

/-- The files left so far, and what was removed. -/
structure Progress where
  files : List DataFile
  removed : List String
  freed : Nat

variable (u : Unicode) (os : Os) (dataRoot : Path) (cut : Clock) (dryRun : Bool)

/-- The file is below the resolved directory. -/
def below (resolved : Path) (file : DataFile) : Bool := isWithin (os.resolve file.path) resolved

/-- The loop over the partitions. It stops at an exception with what it has removed by then;
`rmtree` removes the directory with everything below it. -/
def cleanupLoop : List Path → Progress → Except Exn Unit × Progress
  | [], p => (.ok (), p)
  | partition :: rest, p =>
    match partitionDatetime u partition with
    | .error e => (.error e, p)
    | .ok none => cleanupLoop rest p
    | .ok (some moment) =>
      if cut ≤ moment then cleanupLoop rest p
      else
        match resolveWithin u os partition [dataRoot] with
        | .error e => (.error e, p)
        | .ok resolved =>
          let size := ((p.files.filter (below os resolved)).map (·.size)).sum
          let files := if dryRun then p.files else p.files.filter fun file => !below os resolved file
          cleanupLoop rest { files, removed := p.removed ++ [pathStr resolved], freed := p.freed + size }

/-- `cleanup_job`: what it returns, and the files it leaves. -/
def cleanupJob (s : Layers) (now : Clock) (retentionDays : Int) (layer : String) (files : List DataFile) :
    Except Exn Report × List DataFile :=
  match s.root layer with
  | none =>
    (.error ⟨.valueError, s!"unknown layer '{layer}'; choose from ['analytics', 'processed', 'raw', 'rejected']"⟩, files)
  | some root =>
    match cutoff now retentionDays with
    | .error e => (.error e, files)
    | .ok cut =>
      match iterPartitions u (files.map (·.path)) root with
      | .error e => (.error e, files)
      | .ok partitions =>
        let (result, p) := cleanupLoop u os s.dataRoot cut dryRun partitions { files, removed := [], freed := 0 }
        (result.map fun _ =>
          { layer, retentionDays, dryRun, partitionsRemoved := p.removed.length, bytesFreed := p.freed,
            partitions := p.removed.take 50 }, p.files)

/-! ## What the loop removes -/

/-- The directory starts before the cutoff. -/
def startsBefore (partition : Path) : Bool :=
  match partitionDatetime u partition with
  | .ok (some moment) => moment < cut
  | _ => false

theorem cleanupLoop_dryRun (ps : List Path) : ∀ p : Progress,
    (cleanupLoop u os dataRoot cut true ps p).2.files = p.files := by
  induction ps with
  | nil => intro p; rfl
  | cons partition rest ih =>
    intro p
    rw [cleanupLoop]
    split
    · rfl
    · exact ih p
    · split
      · exact ih p
      · split
        · rfl
        · exact ih _

/-- When `resolve_within` rejects every directory, nothing is removed. -/
theorem cleanupLoop_rejected {ps : List Path} (h : ∀ partition ∈ ps, ∃ e, resolveWithin u os partition [dataRoot] = .error e) :
    ∀ p : Progress, (cleanupLoop u os dataRoot cut dryRun ps p).2.files = p.files := by
  induction ps with
  | nil => intro p; rfl
  | cons partition rest ih =>
    intro p
    obtain ⟨⟨e, he⟩, hrest⟩ := List.forall_mem_cons.1 h
    rw [cleanupLoop, he]
    split
    · rfl
    · exact ih hrest p
    · split
      · exact ih hrest p
      · rfl

/-- When it accepts every directory, those that start before the cutoff are removed. -/
theorem cleanupLoop_accepted {ps : List Path} (hread : ∀ partition ∈ ps, ∃ m, partitionDatetime u partition = .ok m)
    (h : ∀ partition ∈ ps, resolveWithin u os partition [dataRoot] = .ok partition) : ∀ p : Progress,
    (cleanupLoop u os dataRoot cut false ps p).2.files = p.files.filter fun file =>
      !ps.any fun partition => startsBefore u cut partition && below os partition file := by
  induction ps with
  | nil => intro p; simp [cleanupLoop]
  | cons partition rest ih =>
    intro p
    obtain ⟨⟨m, hm⟩, hread⟩ := List.forall_mem_cons.1 hread
    obtain ⟨haccept, h⟩ := List.forall_mem_cons.1 h
    rw [cleanupLoop, haccept, hm]
    cases m with
    | none => simp only [ih hread h, List.any_cons, startsBefore, hm, Bool.false_and, Bool.false_or]
    | some moment =>
      dsimp only
      split
      · next hle =>
        have hlt : ¬moment < cut := by rw [Clock.lt_def]; rw [Clock.le_def] at hle; omega
        simp only [ih hread h, List.any_cons, startsBefore, hm, hlt, decide_false, Bool.false_and, Bool.false_or]
      · next hle =>
        have hlt : moment < cut := by rw [Clock.lt_def]; rw [Clock.le_def] at hle; omega
        simp only [ih hread h, List.any_cons, startsBefore, hm, hlt, decide_true, Bool.true_and, Bool.not_or,
          List.filter_filter, Bool.false_eq_true, if_false, Bool.and_comm]

/-! ## A dataset of one layout -/

/-- A file in the directory `partition_path` gives every event in it. -/
structure Placed (root : Path) (keys : List PartitionKey) (file : DataFile) : Prop where
  written : ∃ utc name, file.path = root ++ keys.map (segment utc) ++ [name]
  events : ∀ t ∈ file.events, partitionPath root { clock := t } (keys.map PartitionKey.name) = .ok file.path.dropLast

/-- The files written under a layout. -/
structure Dataset (root : Path) (keys : List PartitionKey) where
  files : List DataFile
  placed : ∀ file ∈ files, Placed root keys file

variable {u os} {root : Path} {keys : List PartitionKey}

theorem Placed.dir {file : DataFile} (h : Placed root keys file) : ∃ utc, file.path.dropLast = root ++ keys.map (segment utc) := by
  obtain ⟨utc, name, hpath⟩ := h.written
  exact ⟨utc, by rw [hpath, List.dropLast_concat]⟩

theorem segment_ordinary (utc : Clock) (key : PartitionKey) : Ordinary (segment utc key) := by
  have hname : ∀ c ∈ key.name.toList, c.val < 128 ∧ c ≠ '\x00' ∧ c ≠ '\\' ∧ c ≠ '.' ∧ c ≠ ':' := by
    have hall : key.name.toList.all (fun c => c.val < 128 && c != '\x00' && c != '\\' && c != '.' && c != ':') = true := by
      cases key <;> decide
    simpa [and_assoc] using hall
  have hdigit : ∀ c : Char, c.isDigit → c.val < 128 ∧ c ≠ '\x00' ∧ c ≠ '\\' ∧ c ≠ '.' ∧ c ≠ ':' := by
    intro c hc
    refine ⟨?_, ?_, ?_, ?_, ?_⟩
    · simp only [Char.isDigit, Bool.and_eq_true, decide_eq_true_eq] at hc
      exact UInt32.lt_of_le_of_lt hc.2 (by decide)
    all_goals rintro rfl; exact absurd hc (by decide)
  have hall : ∀ c ∈ (segment utc key).toList, c.val < 128 ∧ c ≠ '\x00' ∧ c ≠ '\\' ∧ c ≠ '.' ∧ c ≠ ':' := by
    intro c hc
    rw [segment_toList, List.mem_append, List.mem_cons] at hc
    rcases hc with hc | rfl | hc
    · exact hname c hc
    · decide
    · exact hdigit c (zeroPad_isDigit c hc)
  exact ⟨fun c hc => (hall c hc).1, fun c hc => (hall c hc).2, by rw [segment_toList]; simp⟩

/-- The directories found below the root of a dataset are those of its files. -/
theorem Dataset.mem_leaves (hu : u.Lawful) (hkeys : keys ≠ []) (d : Dataset root keys) {leaf : Path} :
    leaf ∈ leaves u (d.files.map (·.path)) root ↔ ∃ file ∈ d.files, file.path.dropLast = leaf := by
  constructor
  · intro h
    rw [leaves, List.mem_dedup, List.mem_filter, List.mem_map] at h
    obtain ⟨⟨path, hpath, rfl⟩, -⟩ := h
    obtain ⟨file, hfile, rfl⟩ := List.mem_map.1 (List.mem_filter.1 hpath).1
    exact ⟨file, hfile, rfl⟩
  · rintro ⟨file, hfile, rfl⟩
    obtain ⟨utc, name, hpath⟩ := (d.placed file hfile).written
    rw [hpath, List.dropLast_concat]
    exact dir_mem_leaves hu (.inl hkeys) utc (List.mem_map.2 ⟨file, hfile, hpath⟩)

/-- A file is below the directory of another only if that is its own directory. -/
theorem Dataset.below_dir {top : Path} (hl : LinkFree os top root) (d : Dataset root keys) {file other : DataFile}
    (hfile : file ∈ d.files) (hother : other ∈ d.files) (h : below os other.path.dropLast file = true) :
    other.path.dropLast = file.path.dropLast := by
  obtain ⟨utc, name, hpath⟩ := (d.placed file hfile).written
  obtain ⟨utc', hdir⟩ := (d.placed other hother).dir
  have hreal : os.resolve file.path = file.path := by rw [hpath, List.append_assoc]; exact hl.below _
  rw [below, hreal, isWithin, List.isPrefixOf_iff_prefix, hdir, hpath] at h
  rw [hdir, hpath, List.dropLast_concat]
  -- both have as many parts as the layout has keys
  have hlen : (root ++ keys.map (segment utc')).length = (root ++ keys.map (segment utc)).length := by simp
  exact (List.prefix_of_prefix_length_le h (List.prefix_append _ _) hlen.le).eq_of_length hlen

/-! ## Retention -/

theorem cutoff_ok {now cut : Clock} {days : Int} (h : cutoff now days = .ok cut) :
    (cut.micros : Int) = now.micros - days * dayMicros := by
  unfold cutoff at h
  split at h
  · cases h
  · have := Clock.ofMicros_ok.1 h
    omega

/-- Only a cutoff before the year 1 is out of range. -/
theorem cutoff_error {now : Clock} {days : Int} (hdays : 0 ≤ days) {e : Exn} (h : cutoff now days = .error e) :
    (now.micros : Int) - days * dayMicros < 0 := by
  have hnow := now.lt_end
  have hend : (endMicros : Int) ≤ 999999999 * dayMicros := by decide
  unfold cutoff at h
  split at h
  · next hbig =>
    have hmul : (999999999 : Int) * dayMicros ≤ days * dayMicros :=
      Int.mul_le_mul_of_nonneg_right (by omega) (Int.natCast_nonneg _)
    omega
  · unfold Clock.add Clock.ofMicros at h
    split at h
    · cases h
    · have hpos : 0 ≤ days * (dayMicros : Int) := Int.mul_nonneg hdays (Int.natCast_nonneg _)
      omega

theorem Dataset.keeps_accepted {top : Path} (hl : LinkFree os top root) (d : Dataset root keys) (cut : Clock)
    {ps : List Path} (hfound : ∀ leaf, leaf ∈ ps ↔ ∃ file ∈ d.files, file.path.dropLast = leaf)
    (hread : ∀ leaf ∈ ps, ∃ m, partitionDatetime u leaf = .ok m)
    (hresolve : ∀ leaf ∈ ps, resolveWithin u os leaf [top] = .ok leaf) :
    (∀ file ∈ d.files, ∀ t ∈ file.events, (cut.micros : Int) ≤ t.micros →
        file ∈ (cleanupLoop u os top cut false ps { files := d.files, removed := [], freed := 0 }).2.files) ↔
      ∀ file ∈ d.files, ∀ t ∈ file.events, (cut.micros : Int) ≤ t.micros →
        ∀ moment, partitionDatetime u file.path.dropLast = .ok (some moment) → (cut.micros : Int) ≤ moment.micros := by
  rw [cleanupLoop_accepted u os top cut hread hresolve]
  refine forall₂_congr fun file hfile => forall₃_congr fun t ht hlive => ?_
  have hself : below os file.path.dropLast file = true := by
    obtain ⟨utc, name, hpath⟩ := (d.placed file hfile).written
    have hreal : os.resolve file.path = file.path := by rw [hpath, List.append_assoc]; exact hl.below _
    rw [below, hreal, isWithin, List.isPrefixOf_iff_prefix]
    exact List.dropLast_prefix _
  rw [List.mem_filter, and_iff_right hfile, Bool.not_eq_true', List.any_eq_false]
  constructor
  · intro hkept moment hmoment
    have hleaf := hkept _ ((hfound _).2 ⟨file, hfile, rfl⟩)
    rw [hself, Bool.and_true, startsBefore, hmoment, decide_eq_true_eq, Clock.lt_def] at hleaf
    omega
  · intro hstart leaf hleaf hremoved
    rw [Bool.and_eq_true] at hremoved
    obtain ⟨hbefore, hbelow⟩ := hremoved
    obtain ⟨other, hother, rfl⟩ := (hfound leaf).1 hleaf
    rw [d.below_dir hl hfile hother hbelow] at hbefore
    obtain ⟨m, hm⟩ := hread _ ((hfound _).2 ⟨file, hfile, rfl⟩)
    rw [startsBefore, hm] at hbefore
    cases m with
    | none => cases hbefore
    | some moment =>
      have hlate := hstart moment hm
      rw [decide_eq_true_eq, Clock.lt_def] at hbefore
      omega

/-- Every event at or after the cutoff is kept exactly when the job is a dry run, or stops
before it removes anything (a directory name is no date, or the layer's directory is one
`resolve_within` rejects), or the directory of every such event has no start or one at or after
the cutoff. -/
theorem cleanup_keeps_live (hu : u.Lawful) {s : Layers} (hl : LinkFree os s.dataRoot root) (hkeys : keys ≠ [])
    (d : Dataset root keys) {layer : String} (hlayer : s.root layer = some root) (now : Clock) {days : Int}
    (hdays : 0 ≤ days) (dryRun : Bool) :
    (∀ file ∈ d.files, ∀ t ∈ file.events, (now.micros : Int) - days * dayMicros ≤ t.micros →
        file ∈ (cleanupJob u os dryRun s now days layer d.files).2) ↔
      dryRun = true ∨
        (∃ leaf ∈ leaves u (d.files.map (·.path)) root, ∃ e, partitionDatetime u leaf = .error e) ∨
        (∃ leaf ∈ leaves u (d.files.map (·.path)) root, ∃ e, resolveWithin u os leaf [s.dataRoot] = .error e) ∨
        ∀ file ∈ d.files, ∀ t ∈ file.events, (now.micros : Int) - days * dayMicros ≤ t.micros →
          ∀ moment, partitionDatetime u file.path.dropLast = .ok (some moment) →
            (now.micros : Int) - days * dayMicros ≤ moment.micros := by
  simp only [cleanupJob, hlayer]
  cases hc : cutoff now days with
  | error e =>
    have hneg := cutoff_error hdays hc
    refine iff_of_true (fun file hfile t _ _ => hfile) (.inr (.inr (.inr fun file _ t _ _ moment _ => ?_)))
    omega
  | ok cut =>
    have hcut := cutoff_ok hc
    simp only [← hcut]
    cases hi : iterPartitions u (d.files.map (·.path)) root with
    | error e =>
      refine iff_of_true (fun file hfile t _ _ => hfile) (.inr (.inl ?_))
      by_contra hnone
      have hread : ∀ leaf ∈ leaves u (d.files.map (·.path)) root, ∃ m, partitionDatetime u leaf = .ok m := by
        intro leaf hleaf
        cases hm : partitionDatetime u leaf with
        | ok m => exact ⟨m, rfl⟩
        | error e => exact absurd ⟨leaf, hleaf, e, hm⟩ hnone
      obtain ⟨ps, hps⟩ := exists_iterPartitions.2 hread
      rw [hi] at hps
      cases hps
    | ok ps =>
      obtain ⟨hread, hmem⟩ := iterPartitions_ok hi
      cases dryRun with
      | true =>
        simp only [cleanupLoop_dryRun]
        exact iff_of_true (fun file hfile t _ _ => hfile) (.inl trivial)
      | false =>
        have hnames : ∀ leaf ∈ ps, ∃ rest, leaf = root ++ rest ∧ rest ≠ [] ∧ ∀ part ∈ rest, Ordinary part := by
          intro leaf hleaf
          obtain ⟨file, hfile, rfl⟩ := (d.mem_leaves hu hkeys).1 ((hmem leaf).1 hleaf)
          obtain ⟨utc, hdir⟩ := (d.placed file hfile).dir
          refine ⟨keys.map (segment utc), hdir, by simpa using hkeys, fun part hpart => ?_⟩
          obtain ⟨key, -, rfl⟩ := List.mem_map.1 hpart
          exact segment_ordinary utc key
        have hfound : ∀ leaf, leaf ∈ ps ↔ ∃ file ∈ d.files, file.path.dropLast = leaf := fun leaf =>
          (hmem leaf).trans (d.mem_leaves hu hkeys)
        have hread' : ∀ leaf ∈ ps, ∃ m, partitionDatetime u leaf = .ok m := fun leaf hleaf => hread leaf ((hmem leaf).1 hleaf)
        rcases resolveWithin_below hu hl with haccept | ⟨e, hreject⟩
        · have hresolve : ∀ leaf ∈ ps, resolveWithin u os leaf [s.dataRoot] = .ok leaf := by
            intro leaf hleaf
            obtain ⟨rest, rfl, hne, hrest⟩ := hnames leaf hleaf
            exact haccept rest hne hrest
          rw [d.keeps_accepted hl cut hfound hread' hresolve]
          refine ⟨fun h => .inr (.inr (.inr h)), ?_⟩
          rintro (h | ⟨leaf, hleaf, e, he⟩ | ⟨leaf, hleaf, e, he⟩ | h)
          · cases h
          · obtain ⟨m, hm⟩ := hread leaf hleaf
            rw [hm] at he
            cases he
          · rw [hresolve leaf ((hmem leaf).2 hleaf)] at he
            cases he
          · exact h
        · have hresolve : ∀ leaf ∈ ps, resolveWithin u os leaf [s.dataRoot] = .error e := by
            intro leaf hleaf
            obtain ⟨rest, rfl, hne, hrest⟩ := hnames leaf hleaf
            exact hreject rest hne hrest
          simp only [cleanupLoop_rejected u os s.dataRoot cut false fun leaf hleaf => ⟨e, hresolve leaf hleaf⟩]
          refine iff_of_true (fun file hfile t _ _ => hfile) (.inr (.inr ?_))
          by_contra hnone
          rw [not_or] at hnone
          refine hnone.2 fun file hfile => ?_
          have hleaf : file.path.dropLast ∈ ps := (hfound _).2 ⟨file, hfile, rfl⟩
          exact absurd ⟨_, (hmem _).1 hleaf, e, hresolve _ hleaf⟩ hnone.1

/-! ## A partition across the cutoff -/

def plainOs : Os := ⟨fun _ => false, id⟩

def dataLayers : Layers :=
  ⟨["/", "data"], ["/", "data", "raw"], ["/", "data", "processed"], ["/", "data", "analytics"], ["/", "data", "rejected"]⟩

theorem plainOs_linkFree : LinkFree plainOs ["/", "data"] ["/", "data", "processed"] :=
  ⟨by decide, rfl, fun _ => rfl, fun _ _ => rfl⟩

/-- The given hour of a day. -/
def atHour (y m d h : Nat) (hv : Valid y m d ∧ y ≤ 9999 ∧ h ≤ 23) : Clock :=
  ⟨dayNumber y m d * dayMicros + h * hourMicros, dayNumber_lt_end hv.1 hv.2.1 (by
    calc h * hourMicros ≤ 23 * hourMicros := Nat.mul_le_mul_right _ hv.2.2
      _ < dayMicros := by decide)⟩

/-- The evening event of August 7, in its daily partition. -/
def evening : DataFile where
  path := ["/", "data", "processed", "year=2026", "month=08", "day=07", "part.parquet"]
  size := 4096
  events := [atHour 2026 8 7 18 (by decide)]

def oneEvening : Dataset ["/", "data", "processed"] [.year, .month, .day] where
  files := [evening]
  placed := by
    intro file hfile
    rw [List.mem_singleton] at hfile
    subst hfile
    refine ⟨⟨atHour 2026 8 7 18 (by decide), "part.parquet", by decide +kernel⟩, fun t ht => ?_⟩
    rw [List.mem_singleton.1 ht]
    decide +kernel

/-- With the cutoff at the start of the day, the event stays. -/
theorem cleanup_keeps_live_midnight : evening ∈
    (cleanupJob asciiUnicode plainOs false dataLayers (atHour 2026 11 5 0 (by decide)) 90 "processed"
      oneEvening.files).2 := by
  refine (cleanup_keeps_live asciiUnicode_lawful plainOs_linkFree (by decide) oneEvening (by decide)
    (atHour 2026 11 5 0 (by decide)) (by decide) false).2 (.inr (.inr (.inr ?_))) evening (by simp [oneEvening])
    (atHour 2026 8 7 18 (by decide)) (by simp [evening]) (by decide)
  intro file hfile t _ _ moment hmoment
  obtain rfl := List.mem_singleton.1 hfile
  have hstart : partitionDatetime asciiUnicode evening.path.dropLast = .ok (some (atHour 2026 8 7 0 (by decide))) := by
    decide
  rw [hstart] at hmoment
  cases hmoment
  decide

/-- With the cutoff at noon of that day, the event of the evening is deleted. -/
theorem cleanup_deletes_live : ¬∀ file ∈ oneEvening.files, ∀ t ∈ file.events,
    ((atHour 2026 11 5 12 (by decide)).micros : Int) - 90 * dayMicros ≤ t.micros →
      file ∈ (cleanupJob asciiUnicode plainOs false dataLayers (atHour 2026 11 5 12 (by decide)) 90 "processed"
        oneEvening.files).2 := by
  intro h
  have hnone : (cleanupJob asciiUnicode plainOs false dataLayers (atHour 2026 11 5 12 (by decide)) 90 "processed"
      oneEvening.files).2 = [] := by rfl
  have hkept := h evening (by simp [oneEvening]) _ (by simp [evening]; rfl) (by decide)
  rw [hnone] at hkept
  cases hkept

end LogAnalytics.Cleanup
