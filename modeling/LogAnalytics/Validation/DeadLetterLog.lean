import LogAnalytics.Lib.Runs
import LogAnalytics.Validation.Rejections
/-!
# The log of rejections

What `iter_rejected` reads is what `record` wrote: every row is one line, whatever its texts are,
and the rows of a day are in one file in the order in which they were written.
-/
open LogAnalytics.Lib

namespace LogAnalytics

variable {P : Type} {w : DlqWriter P}

/-! ## One row -/

namespace RejectedRecord

/-- A row that can be written: its texts in UTF-8, its line number in decimal. -/
structure Storable (r : RejectedRecord P Clock) : Prop where
  detail : Text.encodable r.detail = true
  source : Text.encodable r.source = true
  raw : Text.encodable r.raw = true
  lineNumber : ∀ n ∈ r.lineNumber, n < textLimit

theorem toRow_keys (w : DlqWriter P) (r : RejectedRecord P Clock) : ((r.toRow w).map Prod.fst).Nodup := by
  have hkeys : (r.toRow w).map Prod.fst = ["rejected_at", "reason", "stage", "detail", "source", "line_number", "raw",
    "raw_hash", "partial"].map Text.ofString := rfl
  rw [hkeys, List.nodup_map_iff Text.ofString_injective]
  decide

theorem textLimit_eq : textLimit = 10 ^ Json.maxDigits := by
  rw [textLimit, Json.maxDigits]

theorem toRow_readable (w : DlqWriter P) {r : RejectedRecord P Clock} (h : r.Storable) : ∀ m ∈ r.toRow w, m.2.Readable := by
  have hnumber : (r.lineNumber.elim Json.Scalar.null .nat).Readable := by
    cases hn : r.lineNumber with
    | none => trivial
    | some n =>
      have hlt := h.lineNumber n hn
      rw [textLimit_eq] at hlt
      exact hlt
  have hpartial : (r.partialRow.elim Json.Scalar.null fun p => .str (w.dumps p)).Readable := by
    cases r.partialRow <;> trivial
  unfold toRow
  simp only [List.forall_mem_cons, List.not_mem_nil, false_implies, implies_true, and_true]
  exact ⟨trivial, trivial, trivial, trivial, trivial, hnumber, trivial, trivial, hpartial⟩

/-- The decoder gives back the row. -/
theorem loads_toRow (w : DlqWriter P) {r : RejectedRecord P Clock} (h : r.Storable) :
    Json.loads (Json.dumps (r.toRow w)) = some (r.toValue w) :=
  Json.loads_dumps (List.cons_ne_nil _ _) (toRow_readable w h) (toRow_keys w r)

/-- Its texts can be encoded. -/
theorem encodable_texts (w : DlqWriter P) {r : RejectedRecord P Clock} (h : r.Storable) :
    Text.encodable (Json.texts (r.toRow w)) = true := by
  have hstring (s : String) : Text.encodable (Text.ofString s) = true := Text.encodable_ofString s
  have htime : Text.encodable (Text.ofChars (r.rejectedAt.isoformat ' ')) = true := by
    have heq : Text.ofChars (r.rejectedAt.isoformat ' ') = Text.ofString (String.ofList (r.rejectedAt.isoformat ' ')) := by
      rw [Text.ofString, String.toList_ofList]
      rfl
    rw [heq]
    exact hstring _
  have hnumber : Text.encodable (r.lineNumber.elim Json.Scalar.null .nat).text = true := by
    cases r.lineNumber <;> rfl
  have hpartial : Text.encodable (r.partialRow.elim Json.Scalar.null fun p => .str (w.dumps p)).text = true := by
    cases r.partialRow with
    | none => rfl
    | some p =>
      have hascii := w.dumps_ascii p
      rw [Text.isAscii, List.all_eq_true] at hascii
      refine List.all_eq_true.2 fun c hc => ?_
      have hlt := of_decide_eq_true (hascii c hc)
      simp only [Text.isSurrogate, Bool.not_eq_true', Bool.and_eq_false_imp, decide_eq_true_eq, decide_eq_false_iff_not]
      omega
  unfold Json.texts toRow
  simp only [List.flatMap_cons, List.flatMap_nil, Text.encodable, List.all_append, Bool.and_eq_true, List.all_nil, and_true]
  exact ⟨⟨hstring _, htime⟩, ⟨hstring _, hstring _⟩, ⟨hstring _, hstring _⟩, ⟨hstring _, h.detail⟩, ⟨hstring _, h.source⟩,
    ⟨hstring _, hnumber⟩, ⟨hstring _, h.raw⟩, ⟨hstring _, hstring _⟩, hstring _, hpartial⟩

/-- The line of a row that can be written. -/
def text (w : DlqWriter P) (r : RejectedRecord P Clock) : Text := Json.dumps (r.toRow w) ++ [CodePoint.ofChar '\n']

theorem line_eq {r : RejectedRecord P Clock} (h : r.Storable) : r.line w = .ok (r.text w) := by
  have hall : r.lineNumber.all (· < textLimit) = true := by
    cases hn : r.lineNumber with
    | none => rfl
    | some n =>
      rw [Option.all_some, decide_eq_true_eq]
      exact h.lineNumber n hn
  exact if_pos hall

theorem encodable_text {r : RejectedRecord P Clock} (h : r.Storable) : Text.encodable (r.text w) = true := by
  have htexts := encodable_texts w h
  unfold Text.encodable at htexts ⊢
  rw [List.all_eq_true] at htexts ⊢
  intro c hc
  rcases List.mem_append.1 hc with hc | hc
  · rcases (Json.written_dumps hc).2 with hascii | hc
    · simp only [Text.isSurrogate, Bool.not_eq_true', Bool.and_eq_false_imp, decide_eq_true_eq, decide_eq_false_iff_not]
      omega
    · exact htexts c hc
  · rw [List.mem_singleton.1 hc]
    rfl

end RejectedRecord

namespace DlqStore

/-- A row is a line of its own, whatever its texts are. -/
theorem records_text {r : RejectedRecord P Clock} (h : r.Storable) (rest : Text) :
    records (r.text w ++ rest) = r.toValue w :: records rest := by
  have hbreak : ∀ c ∈ Json.dumps (r.toRow w), isBreak c = false := by
    intro c hc
    have hwritten := (Json.written_dumps hc).1
    by_contra hbreak
    rw [Bool.not_eq_false, isBreak, Bool.or_eq_true, decide_eq_true_eq, decide_eq_true_eq] at hbreak
    rcases hbreak with rfl | rfl <;> exact absurd hwritten (by decide)
  have hstrip : Text.strip (Json.dumps (r.toRow w)) = Json.dumps (r.toRow w) := by
    refine Text.strip_eq_self (fun c hc => ?_) fun c hc => ?_
    · rw [Json.dumps, List.head?_cons, Option.mem_some_iff] at hc
      subst hc
      rfl
    · rw [Json.dumps, ← List.cons_append, List.getLast?_concat, Option.mem_some_iff] at hc
      subst hc
      rfl
  have hne : Json.dumps (r.toRow w) ≠ [] := List.cons_ne_nil _ _
  unfold records RejectedRecord.text
  rw [List.append_assoc, List.singleton_append, List.splitOnP_append_cons_of_forall_mem hbreak _ rfl, List.filterMap_cons, hstrip,
    if_neg hne, RejectedRecord.loads_toRow w h]

/-- The text of a file of rows. -/
def fileText (w : DlqWriter P) (rows : List (RejectedRecord P Clock)) : Text := rows.flatMap (RejectedRecord.text w)

theorem records_fileText {rows : List (RejectedRecord P Clock)} (h : ∀ r ∈ rows, r.Storable) :
    records (fileText w rows) = rows.map (RejectedRecord.toValue w) := by
  induction rows with
  | nil => rfl
  | cons r rows ih =>
    obtain ⟨hr, hrows⟩ := List.forall_mem_cons.1 h
    rw [fileText, List.flatMap_cons, records_text hr, List.map_cons]
    exact congrArg _ (ih hrows)

/-! ## Files of rows -/

/-- The files that hold some rows each. -/
def filesOf (w : DlqWriter P) (groups : List (FilePath × List (RejectedRecord P Clock))) : List (FilePath × Text) :=
  groups.map fun group => (group.1, fileText w group.2)

/-- A row is recent enough if its text says so. -/
def isRecent (since : Option Clock) (r : RejectedRecord P Clock) : Bool :=
  since.all fun since => !(Text.ofChars (r.rejectedAt.isoformat ' ') < Text.ofChars (since.isoformat 'T') : Bool)

theorem isSince_toValue (since : Option Clock) (r : RejectedRecord P Clock) :
    isSince since (r.toValue w) = .ok (isRecent since r) := by
  cases since with
  | none => rfl
  | some since =>
    have hlookup : ((r.toRow w).map fun member => (member.1, member.2.toValue)).lookup (Text.ofString "rejected_at") =
        some (.str (Text.ofChars (r.rejectedAt.isoformat ' '))) := List.lookup_cons_self
    unfold RejectedRecord.toValue isSince
    dsimp only
    rw [hlookup]
    rfl

theorem yieldFrom_rows (since : Option Clock) (rows : List (RejectedRecord P Clock)) :
    yieldFrom since (rows.map (RejectedRecord.toValue w)) = (.ok (), (rows.filter (isRecent since)).map (RejectedRecord.toValue w)) := by
  induction rows with
  | nil => rfl
  | cons r rows ih =>
    rw [List.map_cons, yieldFrom, isSince_toValue]
    dsimp only
    rw [ih]
    by_cases hrecent : isRecent since r = true
    · rw [List.filter_cons_of_pos hrecent, hrecent]
      rfl
    · rw [List.filter_cons_of_neg hrecent, Bool.eq_false_of_not_eq_true hrecent]
      rfl

/-- The groups in the order in which their files are read. -/
def inOrder (groups : List (FilePath × List (RejectedRecord P Clock))) : List (FilePath × List (RejectedRecord P Clock)) :=
  groups.mergeSort fun a b => a.1 ≤ b.1

/-- All rows in the files, those recent enough, file by file. -/
theorem iterRejected_filesOf (since : Option Clock) {groups : List (FilePath × List (RejectedRecord P Clock))}
    (hnames : ∀ group ∈ groups, isRejectedFile group.1 = true) (hrows : ∀ group ∈ groups, ∀ r ∈ group.2, r.Storable) :
    iterRejected since (filesOf w groups) =
      (.ok (), (((inOrder groups).flatMap Prod.snd).filter (isRecent since)).map (RejectedRecord.toValue w)) := by
  have hfound : (filesOf w groups).filter (fun file => isRejectedFile file.1) = filesOf w groups := by
    refine List.filter_eq_self.2 fun file hfile => ?_
    obtain ⟨group, hgroup, rfl⟩ := List.mem_map.1 hfile
    exact hnames group hgroup
  have hsorted : (filesOf w groups).mergeSort (fun a b => a.1 ≤ b.1) = filesOf w (inOrder groups) := by
    have hmap := List.map_mergeSort (f := fun group : FilePath × List (RejectedRecord P Clock) => (group.1, fileText w group.2))
      (r := fun a b => a.1 ≤ b.1) (s := fun a b => a.1 ≤ b.1) (l := groups) fun _ _ _ _ => rfl
    exact hmap.symm
  have hstorable : ∀ group ∈ inOrder groups, ∀ r ∈ group.2, r.Storable := fun group hgroup =>
    hrows group ((List.mergeSort_perm _ _).mem_iff.1 hgroup)
  have hrecords : ∀ gs : List (FilePath × List (RejectedRecord P Clock)), (∀ g ∈ gs, ∀ r ∈ g.2, r.Storable) →
      (filesOf w gs).flatMap (fun file => records file.2) = (gs.flatMap Prod.snd).map (RejectedRecord.toValue w) := by
    intro gs hgs
    induction gs with
    | nil => rfl
    | cons g gs ih =>
      obtain ⟨hg, hgs⟩ := List.forall_mem_cons.1 hgs
      rw [filesOf, List.map_cons, List.flatMap_cons, records_fileText hg, List.flatMap_cons, List.map_append]
      exact congrArg _ (ih hgs)
  unfold iterRejected
  dsimp only
  rw [hfound, hsorted, hrecords _ hstorable, yieldFrom_rows]

/-! ## Writing rows -/

theorem appendTo_appendTo (path : FilePath) (a b : Text) (files : List (FilePath × Text)) :
    appendTo path b (appendTo path a files) = appendTo path (a ++ b) files := by
  induction files with
  | nil => exact if_pos rfl
  | cons file files ih =>
    rw [appendTo, appendTo]
    by_cases hpath : file.1 = path
    · rw [if_pos hpath, if_pos hpath, appendTo, if_pos rfl, List.append_assoc]
    · rw [if_neg hpath, if_neg hpath, appendTo, if_neg hpath, ih]

/-- A row goes behind those of its file. -/
theorem appendTo_filesOf (path : FilePath) (r : RejectedRecord P Clock)
    (groups : List (FilePath × List (RejectedRecord P Clock))) :
    appendTo path (r.text w) (filesOf w groups) = filesOf w (addTo path r groups) := by
  induction groups with
  | nil =>
    rw [addTo, filesOf, filesOf, List.map_nil, appendTo, List.map_singleton, fileText, List.flatMap_singleton]
  | cons group groups ih =>
    obtain ⟨key, rows⟩ := group
    rw [filesOf, List.map_cons, appendTo, addTo]
    by_cases hpath : key = path
    · rw [if_pos hpath, if_pos hpath, filesOf, List.map_cons, hpath, fileText, fileText, List.flatMap_append,
        List.flatMap_singleton]
    · rw [if_neg hpath, if_neg hpath]
      exact congrArg _ ih

/-- The rows sorted into files. -/
def byFile (w : DlqWriter P) (rows : List (RejectedRecord P Clock)) : List (FilePath × List (RejectedRecord P Clock)) :=
  groupBy (fun r => dayPath w r.rejectedAt.day) rows

/-- A queue with its files does what the queue without them does. -/
structure Simulates (w : DlqWriter P) (s : DlqStore) (q : DeadLetterQueue P Clock) : Prop where
  counts : s.counts = q.counts
  written : s.written = q.written
  dropped : s.dropped = q.dropped
  sinceFlush : s.sinceFlush = q.sinceFlush
  files : s.files = filesOf w (byFile w q.rows)

theorem simulates_empty (w : DlqWriter P) : Simulates w {} {} := ⟨rfl, rfl, rfl, rfl, rfl⟩

/-- A file that is opened is there, and what is written goes to its end. -/
theorem handleFor_spec (s : DlqStore) (path : FilePath) :
    (s.handleFor path).counts = s.counts ∧ (s.handleFor path).written = s.written ∧
    (s.handleFor path).dropped = s.dropped ∧ (s.handleFor path).sinceFlush = s.sinceFlush ∧
    ∀ text, appendTo path text (s.handleFor path).files = appendTo path text s.files := by
  unfold handleFor
  split
  · exact ⟨rfl, rfl, rfl, rfl, fun _ => rfl⟩
  · exact ⟨rfl, rfl, rfl, rfl, fun text => appendTo_appendTo path [] text s.files⟩

theorem byFile_append (rows : List (RejectedRecord P Clock)) (r : RejectedRecord P Clock) :
    byFile w (rows ++ [r]) = addTo (dayPath w r.rejectedAt.day) r (byFile w rows) := by
  rw [byFile, groupBy, List.foldl_append]
  rfl

theorem write_simulates (c : DlqConfig P) {s : DlqStore} {q : DeadLetterQueue P Clock} (h : Simulates w s q)
    {r : RejectedRecord P Clock} (hr : r.Storable) :
    (s.write c w r).1 = .ok () ∧ Simulates w (s.write c w r).2 (DeadLetterQueue.write c {} q r).2 := by
  obtain ⟨counts, written, dropped, sinceFlush, handles, files⟩ := s
  obtain ⟨rfl, rfl, rfl, rfl, rfl⟩ := h
  unfold write DeadLetterQueue.write
  dsimp only
  cases c.enabled with
  | false => exact ⟨rfl, rfl, rfl, rfl, rfl, rfl⟩
  | true =>
    rw [Bool.not_true, if_neg Bool.false_ne_true, if_neg Bool.false_ne_true]
    by_cases hfull : c.maxRecords ≤ q.written
    · rw [if_pos hfull, if_pos hfull]
      exact ⟨rfl, rfl, rfl, rfl, rfl, rfl⟩
    · rw [if_neg hfull, if_neg hfull, RejectedRecord.line_eq hr]
      dsimp only
      rw [if_pos (RejectedRecord.encodable_text hr)]
      obtain ⟨hcounts, hwritten, hdropped, hflush, hfiles⟩ := handleFor_spec
        ⟨increment r.reason.toStr q.counts, q.written, q.dropped, q.sinceFlush, handles, filesOf w (byFile w q.rows)⟩
        (dayPath w r.rejectedAt.day)
      have hrows := (hfiles (r.text w)).trans (appendTo_filesOf (dayPath w r.rejectedAt.day) r (byFile w q.rows))
      rw [← byFile_append] at hrows
      by_cases hdue : DeadLetterQueue.flushEvery ≤ q.sinceFlush + 1
      · rw [if_pos hdue]
        exact ⟨rfl, hcounts, congrArg (· + 1) hwritten, hdropped, by rw [hflush]; exact if_pos hdue, hrows⟩
      · rw [if_neg hdue]
        refine ⟨rfl, hcounts, congrArg (· + 1) hwritten, hdropped, ?_, hrows⟩
        dsimp only
        rw [hflush]
        exact if_neg hdue

/-! ## Days -/

theorem ofChars_injective : Function.Injective Text.ofChars := CodePoint.ofChar_injective.list_map

/-- Every day has its file. -/
theorem dayPath_injective {a b : Clock} (h : dayPath w a.day = dayPath w b.day) : a.day = b.day := by
  have hfield {name : Text} {k m n : Nat} (h : name ++ Text.ofChars (zeroPad k m) = name ++ Text.ofChars (zeroPad k n)) : m = n :=
    zeroPad_injective (ofChars_injective (List.append_cancel_left h))
  obtain ⟨hyear, hmonths⟩ := List.cons.inj h
  obtain ⟨hmonth, hdays⟩ := List.cons.inj hmonths
  have hday := (List.cons.inj hdays).1
  rw [← Calendar.dayNumber_fields a.day, hfield hyear, hfield hmonth, hfield hday, Calendar.dayNumber_fields]

theorem isRejectedFile_dayPath (w : DlqWriter P) (day : Nat) : isRejectedFile (dayPath w day) = true := by
  have hname : (dayPath w day).getLastD [] = Text.ofString "rejected-" ++ w.runId ++ Text.ofString ".jsonl" := rfl
  rw [isRejectedFile, hname, Bool.and_eq_true, List.isPrefixOf_iff_prefix, List.isSuffixOf_iff_suffix]
  exact ⟨(List.prefix_append _ _).trans (List.prefix_append _ _), List.suffix_append _ _⟩

/-- The day of the rows in a file. -/
def groupDay (group : FilePath × List (RejectedRecord P Clock)) : Nat := group.2.head?.elim 0 (·.rejectedAt.day)

/-- The file of a day holds the rows of the day. -/
theorem mem_byFile {rows : List (RejectedRecord P Clock)} {group : FilePath × List (RejectedRecord P Clock)}
    (h : group ∈ byFile w rows) :
    (∃ r ∈ rows, r.rejectedAt.day = groupDay group) ∧ group.1 = dayPath w (groupDay group) ∧
      group.2 = rows.filter (·.rejectedAt.day = groupDay group) := by
  obtain ⟨-, hbuckets, hkeys⟩ := grouped_groupBy (fun r => dayPath w r.rejectedAt.day) rows
  have hrows := hbuckets group h
  obtain ⟨r, hr, hkey⟩ := (hkeys group.1).1 (List.mem_map_of_mem h)
  obtain ⟨first, more, hfirst⟩ : ∃ first more, group.2 = first :: more := by
    refine List.exists_cons_of_ne_nil fun hnil => ?_
    rw [hnil] at hrows
    exact absurd (decide_eq_true hkey) (List.filter_eq_nil_iff.1 hrows.symm r hr)
  obtain ⟨hmem, hpath⟩ := List.mem_filter.1 (hrows ▸ hfirst ▸ List.mem_cons_self : first ∈ rows.filter _)
  have hday : groupDay group = first.rejectedAt.day := by rw [groupDay, hfirst, List.head?_cons, Option.elim_some]
  have hname : group.1 = dayPath w (groupDay group) := by
    rw [hday]
    exact (of_decide_eq_true hpath).symm
  refine ⟨⟨first, hmem, hday.symm⟩, hname, ?_⟩
  rw [hrows]
  refine List.filter_congr fun x _ => decide_eq_decide.2 ?_
  rw [hname, hday]
  exact ⟨fun hsame => dayPath_injective hsame, fun hsame => congrArg (dayPath w) hsame⟩

theorem byFile_names (w : DlqWriter P) (rows : List (RejectedRecord P Clock)) :
    ∀ group ∈ byFile w rows, isRejectedFile group.1 = true := by
  intro group hgroup
  rw [(mem_byFile hgroup).2.1]
  exact isRejectedFile_dayPath w _

theorem byFile_storable {rows : List (RejectedRecord P Clock)} (h : ∀ r ∈ rows, r.Storable) :
    ∀ group ∈ byFile w rows, ∀ r ∈ group.2, r.Storable := by
  intro group hgroup r hr
  rw [(mem_byFile hgroup).2.2] at hr
  exact h r (List.mem_of_mem_filter hr)

/-- The rows are read day by day, those of a day in the order in which they were written. -/
theorem iterRejected_byFile {rows : List (RejectedRecord P Clock)} (h : ∀ r ∈ rows, r.Storable) :
    ∃ days : List Nat, days.Nodup ∧ (∀ day, day ∈ days ↔ ∃ r ∈ rows, r.rejectedAt.day = day) ∧
      iterRejected none (filesOf w (byFile w rows)) =
        (.ok (), days.flatMap fun day => (rows.filter (·.rejectedAt.day = day)).map (RejectedRecord.toValue w)) := by
  obtain ⟨hnodup, -, hkeys⟩ := grouped_groupBy (fun r => dayPath w r.rejectedAt.day) rows
  have hperm : (inOrder (byFile w rows)).Perm (byFile w rows) := List.mergeSort_perm _ _
  refine ⟨(inOrder (byFile w rows)).map groupDay, ?_, fun day => ?_, ?_⟩
  · have hpaths : ((inOrder (byFile w rows)).map groupDay).map (dayPath w) = (inOrder (byFile w rows)).map Prod.fst := by
      rw [List.map_map]
      exact List.map_congr_left fun group hgroup => ((mem_byFile (hperm.mem_iff.1 hgroup)).2.1).symm
    refine List.Nodup.of_map (dayPath w) ?_
    rw [hpaths]
    exact (hperm.map Prod.fst).nodup_iff.2 hnodup
  · rw [List.mem_map]
    constructor
    · rintro ⟨group, hgroup, rfl⟩
      exact (mem_byFile (hperm.mem_iff.1 hgroup)).1
    · rintro ⟨r, hr, rfl⟩
      obtain ⟨group, hgroup, hkey⟩ := List.mem_map.1 ((hkeys _).2 ⟨r, hr, rfl⟩)
      obtain ⟨⟨first, -, hfirst⟩, hname, -⟩ := mem_byFile hgroup
      refine ⟨group, hperm.mem_iff.2 hgroup, ?_⟩
      rw [hname, ← hfirst] at hkey
      rw [← hfirst]
      exact dayPath_injective hkey
  · have hall : ∀ r : RejectedRecord P Clock, isRecent none r = true := fun _ => rfl
    rw [iterRejected_filesOf none (byFile_names w rows) (byFile_storable h), List.filter_eq_self.2 fun r _ => hall r, List.map_flatMap,
      List.flatMap_map]
    refine congrArg (Prod.mk _) (List.flatMap_congr fun group hgroup => ?_)
    rw [← (mem_byFile (hperm.mem_iff.1 hgroup)).2.2]

end DlqStore

end LogAnalytics
