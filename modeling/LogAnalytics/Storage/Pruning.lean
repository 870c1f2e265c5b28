import LogAnalytics.Storage.Partitioning
/-!
# Pruning

What a partition directory written by `partition_path` says when it is read back, and when
`prune_partitions` keeps it. The interval read back has January for a missing month and the
first for a missing day, so it covers the event times of the directory only when the layout
has no gap between its finest key and the year.
-/
open LogAnalytics.Lib LogAnalytics.Lib.Calendar

namespace LogAnalytics.Partitioning

/-! ## Reading a segment back -/

variable {u : Unicode}

theorem decimal_digit (hu : u.Lawful) {c : Char} (h : c.isDigit) : u.decimal c = some (c.toNat - '0'.toNat) := by
  have hascii : c.val < 128 := by
    simp only [Char.isDigit, Bool.and_eq_true, decide_eq_true_eq] at h
    exact UInt32.lt_of_le_of_lt h.2 (by decide)
  rw [hu.decimal_ascii c hascii, asciiDecimal, if_pos h]

theorem intOf_digits (hu : u.Lawful) {digits : List Char} (h : ∀ c ∈ digits, c.isDigit) :
    intOf u digits = Nat.ofDigitChars 10 digits 0 := by
  rw [intOf, Nat.ofDigitChars_eq_foldl]
  refine List.foldl_ext _ _ 0 fun n c hc => ?_
  rw [decimal_digit hu (h c hc), Option.getD_some]

theorem matchDigits_zeroPad (hu : u.Lawful) {width n : Nat} (hw : 2 ≤ width) (hw' : width ≤ 4) (hn : n < 10 ^ 4) :
    matchDigits u (zeroPad width n) = some n := by
  have hdigit : ∀ c ∈ zeroPad width n, c.isDigit := zeroPad_isDigit
  have hlast : (zeroPad width n).getLast? ≠ some '\n' := by
    intro h
    exact absurd (hdigit _ (List.mem_of_getLast? h)) (by decide)
  have hmatch : 2 ≤ (zeroPad width n).length ∧ (zeroPad width n).length ≤ 4 ∧
      (zeroPad width n).all fun c => (u.decimal c).isSome :=
    ⟨hw.trans (le_length_zeroPad _ _), length_zeroPad_le hw' (by decide) hn, List.all_eq_true.2 fun c hc => by
      rw [decimal_digit hu (hdigit c hc)]; rfl⟩
  rw [matchDigits, if_neg hlast]
  simp only [if_pos hmatch, intOf_digits hu hdigit, ofDigitChars_zeroPad]

/-- The directory name for a key, as `partition_path` writes it. -/
def segment (utc : Clock) (key : PartitionKey) : String :=
  s!"{key.name}={String.ofList (zeroPad key.width (key.field utc))}"

theorem segment_toList (utc : Clock) (key : PartitionKey) :
    (segment utc key).toList = key.name.toList ++ '=' :: zeroPad key.width (key.field utc) := by
  simp [segment, toString]

theorem name_no_equals (key : PartitionKey) : ∀ c ∈ key.name.toList, c ≠ '=' := by
  have hall : key.name.toList.all (· != '=') = true := by cases key <;> decide
  simpa using hall

theorem ofName_name (key : PartitionKey) : PartitionKey.ofName? key.name = some key := by
  cases key <;> decide

theorem hour_le (utc : Clock) : utc.hour ≤ 23 :=
  Nat.le_of_lt_succ ((Nat.div_lt_iff_lt_mul (by decide)).2 utc.timeOfDay_lt)

theorem field_lt (key : PartitionKey) (utc : Clock) : key.field utc < 10 ^ 4 := by
  have hyear := utc.year_le
  have hmonth := monthOf_le utc.day
  have hday := dayOf_le utc.day
  have hhour := hour_le utc
  cases key <;> simp only [PartitionKey.field] <;> omega

/-- A segment says the key and the field it was written from. -/
theorem parseSegment_segment (hu : u.Lawful) (utc : Clock) (key : PartitionKey) :
    parseSegment u (segment utc key) = some (key, key.field utc) := by
  have hname : (segment utc key).toList.takeWhile (· ≠ '=') = key.name.toList := by
    rw [segment_toList, List.takeWhile_append_of_pos (by simpa using name_no_equals key)]
    simp
  have hdigits : (segment utc key).toList.dropWhile (· ≠ '=') = '=' :: zeroPad key.width (key.field utc) := by
    rw [segment_toList, List.dropWhile_append_of_pos (by simpa using name_no_equals key)]
    simp
  have hwidth : 2 ≤ key.width ∧ key.width ≤ 4 := by cases key <;> decide
  rw [parseSegment, hname, hdigits, String.ofList_toList, ofName_name]
  simp only [matchDigits_zeroPad hu hwidth.1 hwidth.2 (field_lt key utc), Option.map_some]

/-! ## Reading a directory back -/

theorem foldlM_appendKey (utc : Clock) (keys : List PartitionKey) : ∀ root : Path,
    (keys.map PartitionKey.name).foldlM (appendKey fun key => String.ofList (zeroPad key.width (key.field utc))) root =
      .ok (root ++ keys.map (segment utc)) := by
  induction keys with
  | nil => intro root; exact congrArg Except.ok (List.append_nil root).symm
  | cons key keys ih =>
    intro root
    rw [List.map_cons, List.foldlM_cons, appendKey, ofName_name]
    refine (ih _).trans ?_
    rw [List.append_assoc]
    rfl

theorem partitionPath_ok {root dir : Path} {moment : Datetime} {keys : List PartitionKey} :
    partitionPath root moment (keys.map PartitionKey.name) = .ok dir ↔
      ∃ utc, Timeutil.ensureUtc moment = .ok utc ∧ dir = root ++ keys.map (segment utc) := by
  rw [partitionPath, bind_ok]
  refine exists_congr fun utc => and_congr_right fun _ => ?_
  refine Eq.congr_left (foldlM_appendKey utc keys root) |>.trans ?_
  rw [Except.ok.injEq, eq_comm]

/-- The values in a directory: the event's fields under the keys, and below them what the root says. -/
theorem parsePartition_below (hu : u.Lawful) (root : Path) (utc : Clock) (keys : List PartitionKey) (key : PartitionKey) :
    parsePartition u (root ++ keys.map (segment utc)) key =
      if key ∈ keys then some (key.field utc) else parsePartition u root key := by
  rw [parsePartition, List.foldl_append, List.foldl_map, ← parsePartition]
  simp only [record, parseSegment_segment hu]
  generalize parsePartition u root = found
  -- a later segment of a key replaces an earlier one, with the same value
  induction keys generalizing found with
  | nil => simp
  | cons k keys ih =>
    rw [List.foldl_cons, ih]
    by_cases hk : key = k
    · subst hk; simp
    · simp [hk]

theorem parsePartition_dir (hu : u.Lawful) {root : Path} (hroot : ∀ part ∈ root, parseSegment u part = none)
    (utc : Clock) (keys : List PartitionKey) (key : PartitionKey) :
    parsePartition u (root ++ keys.map (segment utc)) key = if key ∈ keys then some (key.field utc) else none := by
  have hnone : ∀ found, root.foldl (record u) found = found := by
    intro found
    induction root with
    | nil => rfl
    | cons part root ih =>
      obtain ⟨hpart, hroot⟩ := List.forall_mem_cons.1 hroot
      rw [List.foldl_cons, record, hpart]
      exact ih hroot
  rw [parsePartition_below hu, parsePartition, hnone]

/-! ## The interval read back -/

theorem datetime_ok {y m d h : Nat} (hv : Valid y m d) (hy : y ≤ 9999) (hh : h ≤ 23) :
    ∃ c, datetime y m d h = .ok c ∧ c.micros = dayNumber y m d * dayMicros + h * hourMicros := by
  rw [datetime, dif_pos hh, Clock.ofDate_ok hv hy]
  exact ⟨_, rfl, rfl⟩

/-- The finest key of the layout has every coarser one beside it. -/
def GapFree (keys : List PartitionKey) : Prop :=
  (.hour ∈ keys → .day ∈ keys) ∧ (.day ∈ keys → .month ∈ keys)

instance (keys : List PartitionKey) : Decidable (GapFree keys) := inferInstanceAs (Decidable (_ ∧ _))

section Dir

variable {root : Path} (hroot : ∀ part ∈ root, parseSegment u part = none) (utc : Clock) {keys : List PartitionKey}

include hroot

theorem partitionDatetime_undated (hu : u.Lawful) (h : .year ∉ keys) :
    partitionDatetime u (root ++ keys.map (segment utc)) = .ok none := by
  simp only [partitionDatetime, parsePartition_dir hu hroot, if_neg h]

/-- January, the first and midnight stand in for the fields the layout leaves out. -/
theorem partitionDatetime_dated (hu : u.Lawful) (h : .year ∈ keys) :
    ∃ m, partitionDatetime u (root ++ keys.map (segment utc)) = .ok (some m) ∧
      m.micros = dayNumber (yearOf utc.day) (if .month ∈ keys then monthOf utc.day else 1)
        (if .day ∈ keys then dayOf utc.day else 1) * dayMicros + (if .hour ∈ keys then utc.hour else 0) * hourMicros := by
  have hfields := valid_fields utc.day
  have hvalid : Valid (yearOf utc.day) (if .month ∈ keys then monthOf utc.day else 1)
      (if .day ∈ keys then dayOf utc.day else 1) := by
    have hjanuary : daysInMonth (yearOf utc.day) 1 = 31 := by simp [daysInMonth, daysBeforeMonth, commonDaysBefore]
    have hday := dayOf_le utc.day
    have hlast : 28 ≤ daysInMonth (yearOf utc.day) (monthOf utc.day) := le_daysInMonth hfields.month_pos hfields.month_le
    obtain ⟨hy, hm, hm', hd, hd'⟩ := hfields
    split <;> split <;> constructor <;> omega
  have hhour : (if .hour ∈ keys then utc.hour else 0) ≤ 23 := by
    have := hour_le utc
    split <;> omega
  obtain ⟨m, hm, hmicros⟩ := datetime_ok hvalid utc.year_le hhour
  refine ⟨m, ?_, hmicros⟩
  have hget : ∀ (p : Prop) [Decidable p] (v d : Nat), (if p then some v else none).getD d = if p then v else d := by
    intro p _ v d; split <;> rfl
  simp only [partitionDatetime, parsePartition_dir hu hroot, if_pos h, PartitionKey.field, hget, hm]
  rfl

end Dir

/-! ## Where the interval ends -/

theorem add_ok {c e : Clock} {delta : Nat} (h : c.add delta = .ok e) : e.micros = c.micros + delta := by
  have := Clock.ofMicros_ok.1 h
  omega

theorem day_of_micros {c : Clock} {n tod : Nat} (h : c.micros = n * dayMicros + tod) (htod : tod < dayMicros) : c.day = n := by
  rw [Clock.day, h, Nat.mul_comm, Nat.mul_add_div (by decide), Nat.div_eq_of_lt htod, Nat.add_zero]

theorem micros_replaceDate {c e : Clock} {y m d : Nat} (h : replaceDate c y m d = .ok e) :
    e.micros = dayNumber y m d * dayMicros + c.timeOfDay := (Clock.micros_ofDate h).2

theorem micros_lt_of_day {c : Clock} {n : Nat} (h : c.day < n) : c.micros < n * dayMicros :=
  (Nat.div_lt_iff_lt_mul (by decide)).1 h

theorem le_micros_of_day {c : Clock} {n : Nat} (h : n ≤ c.day) : n * dayMicros ≤ c.micros :=
  (Nat.le_div_iff_mul_le (by decide)).1 h

theorem partitionEnd_hour {values : PartitionKey → Option Nat} (hhour : (values .hour).isSome) {start e : Clock}
    (h : partitionEnd start values = .ok e) : e.micros = start.micros + hourMicros := by
  rw [partitionEnd, if_pos hhour] at h
  exact add_ok h

theorem partitionEnd_day {values : PartitionKey → Option Nat} (hhour : values .hour = none) (hday : (values .day).isSome)
    {start e : Clock} (h : partitionEnd start values = .ok e) : e.micros = start.micros + dayMicros := by
  rw [partitionEnd, hhour, if_neg (by simp), if_pos hday] at h
  exact add_ok h

/-- The end of a month's partition is the first of the next month. -/
theorem partitionEnd_month {values : PartitionKey → Option Nat} (hhour : values .hour = none) (hday : values .day = none)
    (hmonth : (values .month).isSome) {start e : Clock} {y m : Nat} (hy : 1 ≤ y) (hpos : 1 ≤ m) (hle : m ≤ 12)
    (hstart : start.micros = dayNumber y m 1 * dayMicros) (h : partitionEnd start values = .ok e) :
    (daysBeforeYear y + daysBeforeMonth y (m + 1)) * dayMicros ≤ e.micros := by
  have hlen : daysInMonth y m ≤ 31 := daysInMonth_le hpos hle
  have hlen' : 28 ≤ daysInMonth y m := le_daysInMonth hpos hle
  have hsday : start.day = dayNumber y m 1 := day_of_micros (hstart.trans (Nat.add_zero _).symm) (by decide)
  have hvalid : Valid y m 1 := ⟨hy, hpos, hle, le_rfl, by omega⟩
  rw [partitionEnd, hhour, hday, if_neg (by simp), if_neg (by simp), if_pos hmonth] at h
  obtain ⟨late, hlate, h⟩ := bind_ok.1 h
  obtain ⟨next, hnext, h⟩ := bind_ok.1 h
  -- the 28th and four days are in the next month
  have hlday : late.day = dayNumber y m 28 := by
    rw [hsday, yearOf_dayNumber hvalid, monthOf_dayNumber hvalid] at hlate
    exact day_of_micros (micros_replaceDate hlate) start.timeOfDay_lt
  have hnday : next.day = late.day + 4 := by
    have hadd : next.micros = late.micros + 4 * dayMicros := add_ok hnext
    apply day_of_micros _ late.timeOfDay_lt
    rw [hadd, ← late.day_timeOfDay, Nat.add_mul]
    omega
  have hreach : daysBeforeYear y + daysBeforeMonth y (m + 1) ≤ next.day := by
    rw [hnday, hlday, dayNumber]
    unfold daysInMonth at hlen
    omega
  have hfirst := le_monthStart (dayOf_nextMonth hy hpos hle) hreach
  rw [micros_replaceDate h]
  exact (Nat.mul_le_mul_right _ hfirst).trans (Nat.le_add_right _ _)

theorem partitionEnd_year {values : PartitionKey → Option Nat} (hhour : values .hour = none) (hday : values .day = none)
    (hmonth : values .month = none) {start e : Clock} {y : Nat} (hy : 1 ≤ y)
    (hstart : start.micros = dayNumber y 1 1 * dayMicros) (h : partitionEnd start values = .ok e) :
    daysBeforeYear (y + 1) * dayMicros ≤ e.micros := by
  have hsday : start.day = dayNumber y 1 1 := day_of_micros (hstart.trans (Nat.add_zero _).symm) (by decide)
  have hvalid : Valid y 1 1 := ⟨hy, le_rfl, by decide, le_rfl, (by decide : 1 ≤ 28).trans (le_daysInMonth le_rfl (by decide))⟩
  rw [partitionEnd, hhour, hday, hmonth, if_neg (by simp), if_neg (by simp), if_neg (by simp), hsday,
    yearOf_dayNumber hvalid, monthOf_dayNumber hvalid, dayOf_dayNumber hvalid] at h
  rw [micros_replaceDate h, dayNumber, daysBeforeMonth_one]
  exact Nat.le_add_right _ _

/-- Without a gap in the layout, the interval a directory says holds its event times. -/
theorem span_covers (hu : u.Lawful) {root : Path} (hroot : ∀ part ∈ root, parseSegment u part = none) (utc : Clock)
    {keys : List PartitionKey} (hyear : .year ∈ keys) (hgap : GapFree keys) {start e : Clock}
    (hstart : partitionDatetime u (root ++ keys.map (segment utc)) = .ok (some start))
    (hend : partitionEnd start (parsePartition u (root ++ keys.map (segment utc))) = .ok e) :
    start ≤ utc ∧ utc < e := by
  obtain ⟨m, hm, hmicros⟩ := partitionDatetime_dated hroot utc hu hyear
  rw [hm] at hstart
  cases hstart
  have hpresent : ∀ key, key ∈ keys → (parsePartition u (root ++ keys.map (segment utc)) key).isSome := by
    intro key hkey
    rw [parsePartition_dir hu hroot, if_pos hkey]
    rfl
  have habsent : ∀ key, key ∉ keys → parsePartition u (root ++ keys.map (segment utc)) key = none := by
    intro key hkey
    rw [parsePartition_dir hu hroot, if_neg hkey]
  have hfields := valid_fields utc.day
  have hnumber := dayNumber_fields utc.day
  have hday := dayNumber_lt_month hfields
  have hsplit := utc.day_timeOfDay
  rw [Clock.le_def, Clock.lt_def]
  by_cases hh : .hour ∈ keys
  · have hd := hgap.1 hh
    rw [if_pos (hgap.2 hd), if_pos hd, if_pos hh, hnumber] at hmicros
    rw [partitionEnd_hour (hpresent _ hh) hend]
    have hhour := Nat.div_add_mod utc.timeOfDay hourMicros
    have hrest : utc.timeOfDay % hourMicros < hourMicros := Nat.mod_lt _ (by decide)
    rw [Clock.hour, Nat.mul_comm _ hourMicros] at hmicros
    omega
  · rw [if_neg hh, Nat.zero_mul, Nat.add_zero] at hmicros
    by_cases hd : .day ∈ keys
    · rw [if_pos (hgap.2 hd), if_pos hd, hnumber] at hmicros
      rw [partitionEnd_day (habsent _ hh) (hpresent _ hd) hend]
      have htod := utc.timeOfDay_lt
      omega
    · rw [if_neg hd] at hmicros
      unfold dayNumber at hnumber
      by_cases hmo : .month ∈ keys
      · rw [if_pos hmo] at hmicros
        have hnext := partitionEnd_month (habsent _ hh) (habsent _ hd) (hpresent _ hmo) hfields.year_pos
          hfields.month_pos hfields.month_le hmicros hend
        refine ⟨?_, (micros_lt_of_day (by omega)).trans_le hnext⟩
        rw [hmicros]
        exact le_micros_of_day (by rw [dayNumber]; omega)
      · rw [if_neg hmo] at hmicros
        have hnext := partitionEnd_year (habsent _ hh) (habsent _ hd) (habsent _ hmo) hfields.year_pos hmicros hend
        refine ⟨?_, (micros_lt_of_day (lt_daysBeforeYear_yearOf utc.day)).trans_le hnext⟩
        rw [hmicros]
        exact le_micros_of_day (by rw [dayNumber, daysBeforeMonth_one]; omega)

/-! ## What is found, what is kept -/

theorem mem_leaves {files : List Path} {root dir : Path} {name : String} (hdir : root.isPrefixOf dir)
    (hname : dir.getLast?.any fun name => (parseSegment u name).isSome) (hfile : dir ++ [name] ∈ files) :
    dir ∈ leaves u files root := by
  have hbelow : root.isPrefixOf (dir ++ [name]) && root.length < (dir ++ [name]).length := by
    have hinit := List.isPrefixOf_iff_prefix.1 hdir
    rw [Bool.and_eq_true, List.isPrefixOf_iff_prefix, decide_eq_true_eq, List.length_append]
    exact ⟨hinit.trans (List.prefix_append _ _), Nat.lt_add_one_of_le hinit.length_le⟩
  rw [leaves, List.mem_dedup, List.mem_filter, List.mem_map]
  exact ⟨⟨dir ++ [name], List.mem_filter.2 ⟨hfile, hbelow⟩, List.dropLast_concat⟩, hname⟩

/-- The written directories have a name that `iter_partitions` looks for. -/
def Listed (u : Unicode) (root : Path) (keys : List PartitionKey) : Prop :=
  keys ≠ [] ∨ root.getLast?.any fun name => (parseSegment u name).isSome

/-- A written directory has such a name, or it is the root itself. -/
theorem listed_iff (hu : u.Lawful) {root : Path} {keys : List PartitionKey} (utc : Clock) :
    Listed u root keys ↔ (root ++ keys.map (segment utc)).getLast?.any fun name => (parseSegment u name).isSome := by
  unfold Listed
  by_cases hkeys : keys = []
  · subst hkeys
    rw [List.map_nil, List.append_nil]
    exact or_iff_right (not_not.2 rfl)
  · have hne : keys.map (segment utc) ≠ [] := by simpa using hkeys
    obtain ⟨key, hkey⟩ : ∃ key, (keys.map (segment utc)).getLast? = some (segment utc key) := by
      rw [List.getLast?_map, List.getLast?_eq_some_getLast hkeys]
      exact ⟨_, rfl⟩
    rw [List.getLast?_append_of_ne_nil _ hne, hkey, Option.any_some, parseSegment_segment hu]
    exact iff_of_true (.inl hkeys) rfl

/-- A written directory with a file in it is found. -/
theorem dir_mem_leaves (hu : u.Lawful) {root : Path} {keys : List PartitionKey} (hlisted : Listed u root keys)
    (utc : Clock) {files : List Path} {name : String} (hfile : root ++ keys.map (segment utc) ++ [name] ∈ files) :
    root ++ keys.map (segment utc) ∈ leaves u files root :=
  mem_leaves (List.isPrefixOf_iff_prefix.2 (List.prefix_append _ _)) ((listed_iff hu utc).1 hlisted) hfile

/-- Every directory found is listed once, unless the name of one is no date. -/
theorem iterPartitions_perm {files : List Path} {root : Path} {ps : List Path} (h : iterPartitions u files root = .ok ps) :
    (∀ leaf ∈ leaves u files root, ∃ m, partitionDatetime u leaf = .ok m) ∧ ps.Perm (leaves u files root) := by
  obtain ⟨keyed, hk, h⟩ := bind_ok.1 h
  cases h
  have hread : ∀ leaf ∈ leaves u files root, ∃ m, partitionDatetime u leaf = .ok m := by
    intro leaf hleaf
    obtain ⟨_, hy⟩ := exists_mapM.1 ⟨_, hk⟩ leaf hleaf
    obtain ⟨m, hm, -⟩ := map_ok.1 hy
    exact ⟨m, hm⟩
  refine ⟨hread, ?_⟩
  have hsnd : keyed.map (·.2) = leaves u files root := by
    have hall := mapM_ok.1 hk
    clear hk hread h
    generalize leaves u files root = found at hall
    induction hall with
    | nil => rfl
    | cons hy _ ih =>
      obtain ⟨m, -, rfl⟩ := map_ok.1 hy
      rw [List.map_cons, ih]
  rw [← hsnd]
  exact (List.perm_insertionSort _ keyed).map _

theorem iterPartitions_ok {files : List Path} {root : Path} {ps : List Path} (h : iterPartitions u files root = .ok ps) :
    (∀ leaf ∈ leaves u files root, ∃ m, partitionDatetime u leaf = .ok m) ∧ ∀ leaf, leaf ∈ ps ↔ leaf ∈ leaves u files root :=
  ⟨(iterPartitions_perm h).1, fun _ => (iterPartitions_perm h).2.mem_iff⟩

theorem iterPartitions_nodup {files : List Path} {root : Path} {ps : List Path}
    (h : iterPartitions u files root = .ok ps) : ps.Nodup :=
  (iterPartitions_perm h).2.nodup_iff.2 (List.nodup_dedup _)

theorem exists_iterPartitions {files : List Path} {root : Path} :
    (∃ ps, iterPartitions u files root = .ok ps) ↔ ∀ leaf ∈ leaves u files root, ∃ m, partitionDatetime u leaf = .ok m := by
  constructor
  · rintro ⟨ps, h⟩
    exact (iterPartitions_ok h).1
  · intro h
    have hkeys : ∀ leaf ∈ leaves u files root, ∃ key, (partitionDatetime u leaf).map (·, leaf) = .ok key := by
      intro leaf hleaf
      obtain ⟨m, hm⟩ := h leaf hleaf
      exact ⟨_, map_ok.2 ⟨m, hm, rfl⟩⟩
    obtain ⟨keyed, hk⟩ := exists_mapM.2 hkeys
    exact ⟨_, bind_ok.2 ⟨keyed, hk, rfl⟩⟩

theorem exists_selects {start stop : Option Clock} {leaf : Path} :
    (∃ b, selects u start stop leaf = .ok b) ↔ ∃ m, partitionDatetime u leaf = .ok m ∧
      ∀ moment ∈ m, ∃ e, partitionEnd moment (parsePartition u leaf) = .ok e := by
  unfold selects
  constructor
  · rintro ⟨b, h⟩
    obtain ⟨m, hm, h⟩ := bind_ok.1 h
    refine ⟨m, hm, fun moment hmoment => ?_⟩
    cases hmoment
    obtain ⟨e, he, -⟩ := bind_ok.1 h
    exact ⟨e, he⟩
  · rintro ⟨m, hm, h⟩
    cases m with
    | none => exact ⟨_, bind_ok.2 ⟨none, hm, rfl⟩⟩
    | some moment =>
      obtain ⟨e, he⟩ := h moment rfl
      exact ⟨_, bind_ok.2 ⟨some moment, hm, bind_ok.2 ⟨e, he, rfl⟩⟩⟩

theorem selects_true {start stop : Option Clock} {leaf : Path} :
    selects u start stop leaf = .ok true ↔ partitionDatetime u leaf = .ok none ∨
      ∃ moment e, partitionDatetime u leaf = .ok (some moment) ∧ partitionEnd moment (parsePartition u leaf) = .ok e ∧
        (∀ s ∈ start, s < e) ∧ ∀ s ∈ stop, moment ≤ s := by
  unfold selects
  have hbounds : ∀ moment e : Clock, (!(start.any fun s => e ≤ s) && !(stop.any fun s => s < moment)) = true ↔
      (∀ s ∈ start, s < e) ∧ ∀ s ∈ stop, moment ≤ s := by
    intro moment e
    simp only [Bool.and_eq_true, Bool.not_eq_true']
    cases start <;> cases stop <;> simp [Clock.le_def, Clock.lt_def]
  constructor
  · intro h
    obtain ⟨m, hm, h⟩ := bind_ok.1 h
    cases m with
    | none => exact .inl hm
    | some moment =>
      obtain ⟨e, he, h⟩ := bind_ok.1 h
      exact .inr ⟨moment, e, hm, he, (hbounds moment e).1 (Except.ok.inj h)⟩
  · rintro (hm | ⟨moment, e, hm, he, hb⟩)
    · exact bind_ok.2 ⟨none, hm, rfl⟩
    · refine bind_ok.2 ⟨some moment, hm, bind_ok.2 ⟨e, he, ?_⟩⟩
      rw [(hbounds moment e).2 hb]
      rfl

/-! ## Pruning a dataset -/

/-- `prune_partitions` raises nowhere: the bounds are in the calendar, every directory found
says a date and, when there is a bound, the date's interval ends in the calendar. -/
structure Prunable (u : Unicode) (files : List Path) (root : Path) (start stop : Option Datetime) : Prop where
  start_utc : ∀ d ∈ start, ∃ utc, Timeutil.ensureUtc d = .ok utc
  stop_utc : ∀ d ∈ stop, ∃ utc, Timeutil.ensureUtc d = .ok utc
  dated : ∀ leaf ∈ leaves u files root, ∃ m, partitionDatetime u leaf = .ok m
  ends : ¬(start = none ∧ stop = none) → ∀ leaf ∈ leaves u files root, ∀ moment,
    partitionDatetime u leaf = .ok (some moment) → ∃ e, partitionEnd moment (parsePartition u leaf) = .ok e

/-- The interval a directory says meets the range. -/
def Meets (u : Unicode) (dir : Path) (start stop : Option Datetime) : Prop :=
  ∃ moment e, partitionDatetime u dir = .ok (some moment) ∧ partitionEnd moment (parsePartition u dir) = .ok e ∧
    (∀ d ∈ start, d.instant < e.micros) ∧ ∀ d ∈ stop, (moment.micros : Int) ≤ d.instant

theorem mapM_ensureUtc {d : Option Datetime} :
    (∃ utc, d.mapM Timeutil.ensureUtc = .ok utc) ↔ ∀ x ∈ d, ∃ utc, Timeutil.ensureUtc x = .ok utc := by
  cases d with
  | none => exact iff_of_true ⟨none, rfl⟩ (by simp)
  | some x =>
    simp only [Option.mem_some_iff, forall_eq']
    constructor
    · rintro ⟨utc, h⟩
      obtain ⟨a, ha, -⟩ := map_ok.1 h
      exact ⟨a, ha⟩
    · rintro ⟨a, ha⟩
      exact ⟨some a, map_ok.2 ⟨a, ha, rfl⟩⟩

theorem mem_mapM_ensureUtc {d : Option Datetime} {utc : Option Clock} (h : d.mapM Timeutil.ensureUtc = .ok utc)
    (p : Int → Prop) : (∀ c ∈ utc, p c.micros) ↔ ∀ x ∈ d, p x.instant := by
  cases d with
  | none => cases h; simp
  | some x =>
    obtain ⟨a, ha, rfl⟩ := map_ok.1 h
    simp [Timeutil.ensureUtc_ok.1 ha]

theorem exists_prunePartitions {files : List Path} {root : Path} {start stop : Option Datetime} :
    (∃ ps, prunePartitions u files root start stop = .ok ps) ↔ Prunable u files root start stop := by
  unfold prunePartitions
  constructor
  · rintro ⟨ps, h⟩
    obtain ⟨partitions, hiter, h⟩ := bind_ok.1 h
    obtain ⟨hread, hmem⟩ := iterPartitions_ok hiter
    by_cases hb : start = none ∧ stop = none
    · obtain ⟨rfl, rfl⟩ := hb
      exact ⟨by simp, by simp, hread, by simp⟩
    · rw [if_neg hb] at h
      obtain ⟨s, hs, h⟩ := bind_ok.1 h
      obtain ⟨e, he, h⟩ := bind_ok.1 h
      refine ⟨mapM_ensureUtc.1 ⟨s, hs⟩, mapM_ensureUtc.1 ⟨e, he⟩, hread, ?_⟩
      intro _ leaf hleaf moment hmoment
      obtain ⟨m, hm, hends⟩ := exists_selects.1 (exists_selectM.1 ⟨ps, h⟩ leaf ((hmem leaf).2 hleaf))
      rw [hm] at hmoment
      cases hmoment
      exact hends moment rfl
  · intro hp
    obtain ⟨partitions, hiter⟩ := exists_iterPartitions.2 hp.dated
    by_cases hb : start = none ∧ stop = none
    · exact ⟨partitions, bind_ok.2 ⟨partitions, hiter, if_pos hb⟩⟩
    · obtain ⟨s, hs⟩ := mapM_ensureUtc.2 hp.start_utc
      obtain ⟨e, he⟩ := mapM_ensureUtc.2 hp.stop_utc
      have hall : ∀ leaf ∈ partitions, ∃ b, selects u s e leaf = .ok b := by
        intro leaf hleaf
        have hleaf := ((iterPartitions_ok hiter).2 leaf).1 hleaf
        obtain ⟨m, hm⟩ := hp.dated leaf hleaf
        refine exists_selects.2 ⟨m, hm, fun moment hmoment => ?_⟩
        cases hmoment
        exact hp.ends hb leaf hleaf moment hm
      obtain ⟨ps, h⟩ := exists_selectM.2 hall
      refine ⟨ps, bind_ok.2 ⟨partitions, hiter, ?_⟩⟩
      rw [if_neg hb]
      exact bind_ok.2 ⟨s, hs, bind_ok.2 ⟨e, he, h⟩⟩

/-- What is kept of the directories found: without a bound all, with one those that say no date and
those whose interval meets the range. -/
theorem mem_of_prunePartitions {files : List Path} {root dir : Path} {start stop : Option Datetime} {ps : List Path}
    (h : prunePartitions u files root start stop = .ok ps) :
    dir ∈ ps ↔ dir ∈ leaves u files root ∧
      (start = none ∧ stop = none ∨ partitionDatetime u dir = .ok none ∨ Meets u dir start stop) := by
  unfold prunePartitions at h
  obtain ⟨partitions, hiter, h⟩ := bind_ok.1 h
  have hmem := (iterPartitions_ok hiter).2 dir
  by_cases hb : start = none ∧ stop = none
  · rw [if_pos hb] at h
    cases h
    simp only [hmem, hb, true_or, and_true]
  · rw [if_neg hb] at h
    obtain ⟨s, hs, h⟩ := bind_ok.1 h
    obtain ⟨e, he, h⟩ := bind_ok.1 h
    have hstart := fun t : Clock => mem_mapM_ensureUtc hs (· < (t.micros : Int))
    have hstop := fun t : Clock => mem_mapM_ensureUtc he ((t.micros : Int) ≤ ·)
    simp only [Nat.cast_lt, Nat.cast_le] at hstart hstop
    rw [mem_of_selectM h, hmem]
    simp only [selects_true, Meets, Clock.lt_def, Clock.le_def, hstart, hstop, hb, false_or]

theorem nodup_prunePartitions {files : List Path} {root : Path} {start stop : Option Datetime} {ps : List Path}
    (h : prunePartitions u files root start stop = .ok ps) : ps.Nodup := by
  unfold prunePartitions at h
  obtain ⟨partitions, hiter, h⟩ := bind_ok.1 h
  have hnodup := iterPartitions_nodup hiter
  by_cases hb : start = none ∧ stop = none
  · rw [if_pos hb] at h
    cases h
    exact hnodup
  · rw [if_neg hb] at h
    obtain ⟨s, -, h⟩ := bind_ok.1 h
    obtain ⟨e, -, h⟩ := bind_ok.1 h
    exact hnodup.sublist (sublist_of_selectM h)

/-- With a bound, a directory is kept when it says no date or its interval meets the range. -/
theorem mem_prunePartitions {files : List Path} {root dir : Path} {start stop : Option Datetime}
    (hb : ¬(start = none ∧ stop = none)) (hdir : dir ∈ leaves u files root) :
    (∃ ps, prunePartitions u files root start stop = .ok ps ∧ dir ∈ ps) ↔
      Prunable u files root start stop ∧ (partitionDatetime u dir = .ok none ∨ Meets u dir start stop) := by
  rw [← exists_prunePartitions]
  constructor
  · rintro ⟨ps, h, hkept⟩
    exact ⟨⟨ps, h⟩, ((mem_of_prunePartitions h).1 hkept).2.resolve_left hb⟩
  · rintro ⟨⟨ps, h⟩, hkept⟩
    exact ⟨ps, h, (mem_of_prunePartitions h).2 ⟨hdir, .inr hkept⟩⟩

/-- Without one, every directory found is kept. -/
theorem mem_prunePartitions_all {files : List Path} {root dir : Path} (hdir : dir ∈ leaves u files root) :
    (∃ ps, prunePartitions u files root none none = .ok ps ∧ dir ∈ ps) ↔ Prunable u files root none none := by
  rw [← exists_prunePartitions]
  exact ⟨fun ⟨ps, h, _⟩ => ⟨ps, h⟩, fun ⟨ps, h⟩ => ⟨ps, h, (mem_of_prunePartitions h).2 ⟨hdir, .inl ⟨rfl, rfl⟩⟩⟩⟩

/-- The directory of an event time in the range is returned exactly when pruning raises
nowhere and the layout says no year or has no gap, or there is no bound, or the interval the
gapped names say happens to meet the range. -/
theorem prune_sound (hu : u.Lawful) {root : Path} (hroot : ∀ part ∈ root, parseSegment u part = none)
    {keys : List PartitionKey} (hkeys : keys ≠ []) {t : Datetime} {dir : Path}
    (hdir : partitionPath root t (keys.map PartitionKey.name) = .ok dir) {files : List Path} {name : String}
    (hfile : dir ++ [name] ∈ files) {start stop : Option Datetime} (hstart : ∀ d ∈ start, d.instant ≤ t.instant)
    (hstop : ∀ d ∈ stop, t.instant ≤ d.instant) :
    (∃ ps, prunePartitions u files root start stop = .ok ps ∧ dir ∈ ps) ↔
      Prunable u files root start stop ∧
        (.year ∉ keys ∨ (start = none ∧ stop = none) ∨ GapFree keys ∨ Meets u dir start stop) := by
  obtain ⟨utc, hutc, rfl⟩ := partitionPath_ok.1 hdir
  rw [Timeutil.ensureUtc_ok.1 hutc] at hstart hstop
  have hleaf : root ++ keys.map (segment utc) ∈ leaves u files root := dir_mem_leaves hu (.inl hkeys) utc hfile
  by_cases hb : start = none ∧ stop = none
  · obtain ⟨rfl, rfl⟩ := hb
    rw [mem_prunePartitions_all hleaf]
    exact (and_iff_left (.inr (.inl ⟨rfl, rfl⟩))).symm
  · rw [mem_prunePartitions hb hleaf]
    refine and_congr_right fun hp => ?_
    by_cases hyear : .year ∈ keys
    · obtain ⟨moment, hm, -⟩ := partitionDatetime_dated hroot utc hu hyear
      have hdated : partitionDatetime u (root ++ keys.map (segment utc)) ≠ .ok none := by
        rw [hm]
        simp
      -- a layout without gaps covers the event time, so it meets any range around it
      have hcovers : GapFree keys → Meets u (root ++ keys.map (segment utc)) start stop := by
        intro hgap
        obtain ⟨e, he⟩ := hp.ends hb _ hleaf moment hm
        obtain ⟨hlo, hhi⟩ := span_covers hu hroot utc hyear hgap hm he
        rw [Clock.le_def] at hlo
        rw [Clock.lt_def] at hhi
        refine ⟨moment, e, hm, he, fun d hd => ?_, fun d hd => ?_⟩
        · have := hstart d hd
          omega
        · have := hstop d hd
          omega
      simp only [hdated, hyear, not_true, hb, false_or]
      exact ⟨.inr, Or.rec hcovers id⟩
    · rw [partitionDatetime_undated hroot utc hu hyear]
      exact iff_of_true (.inl rfl) (.inl hyear)

/-- A UTC midnight. -/
def midnight (y m d : Nat) (h : Valid y m d ∧ y ≤ 9999) : Datetime where
  clock := ⟨dayNumber y m d * dayMicros + 0, dayNumber_lt_end h.1 h.2 (by decide)⟩
  offset := some 0

def august7 : Datetime := midnight 2026 8 7 (by decide)

def august1 : Datetime := midnight 2026 8 1 (by decide)

/-- Laid out by year, month and day, its event is found in the range from August 1. -/
theorem prune_sound_default : Prunable asciiUnicode [["/", "data", "year=2026", "month=08", "day=07", "part.parquet"]]
    ["/", "data"] (some august1) none :=
  ((@prune_sound _ asciiUnicode_lawful ["/", "data"] (by decide) [.year, .month, .day] (by decide) august7
    ["/", "data", "year=2026", "month=08", "day=07"] (by decide +kernel) _ "part.parquet" (by decide) (some august1) none
    (by decide) (by simp)).1
    ⟨[["/", "data", "year=2026", "month=08", "day=07"]], by decide, by simp⟩).1

/-- Laid out by year and day, it is not: `year=2026/day=07` is read as January 7. -/
theorem prune_hides_gapped : partitionPath ["/", "data"] august7 ["year", "day"] = .ok ["/", "data", "year=2026", "day=07"] ∧
    august1.instant ≤ august7.instant ∧
    prunePartitions asciiUnicode [["/", "data", "year=2026", "day=07", "part.parquet"]] ["/", "data"] (some august1) none =
      .ok [] := by
  refine ⟨?_, ?_, ?_⟩ <;> decide +kernel

end LogAnalytics.Partitioning
