import Mathlib.Data.List.Sublists
import LogAnalytics.Validation.Threads
/-!
# Rejections since a moment

`iter_rejected` compares the text of a row's time, with a blank behind the date, to `isoformat` of
the bound, with a `T` there. Which rows are left out.
-/
open LogAnalytics.Lib LogAnalytics.Lib.Calendar

namespace LogAnalytics

/-! ## The two texts -/

theorem ofChars_lt {a b : List Char} : Text.ofChars a < Text.ofChars b ↔ a < b := by
  have hchar {c d : Char} : CodePoint.ofChar c < CodePoint.ofChar d ↔ c < d := by
    have hval (c : Char) : (CodePoint.ofChar c).val = c.toNat := Json.toNat_code c
    rw [Fin.lt_def, hval, hval]
    exact Iff.rfl
  induction a generalizing b with
  | nil => cases b <;> simp [Text.ofChars]
  | cons c a ih =>
    cases b with
    | nil => simp [Text.ofChars]
    | cons d b =>
      have hcons (c : Char) (a : List Char) : Text.ofChars (c :: a) = CodePoint.ofChar c :: Text.ofChars a := rfl
      rw [hcons, hcons, List.cons_lt_cons_iff, List.cons_lt_cons_iff]
      exact or_congr hchar (and_congr CodePoint.ofChar_injective.eq_iff ih)

/-- The date, what separates it from the time, and the time. -/
theorem isoformat_eq (sep : Char) (c : Clock) : ∃ time, c.isoformat sep =
    zeroPad 4 (yearOf c.day) ++ '-' :: (zeroPad 2 (monthOf c.day) ++ '-' :: (zeroPad 2 (dayOf c.day) ++ sep :: time)) := by
  unfold Clock.isoformat
  exact ⟨_, rfl⟩

/-- On the day of the bound the blank decides. -/
theorem isoformat_lt (a b : Clock) : a.isoformat ' ' < b.isoformat 'T' ↔ a.day ≤ b.day := by
  have hfields (c : Clock) : yearOf c.day < 10 ^ 4 ∧ monthOf c.day < 10 ^ 2 ∧ dayOf c.day < 10 ^ 2 := by
    have hyear := c.year_le
    have hmonth := monthOf_le c.day
    have hday := dayOf_le c.day
    omega
  obtain ⟨hyear, hmonth, hday⟩ := hfields a
  obtain ⟨hyear', hmonth', hday'⟩ := hfields b
  have hsep (x : Char) (s t : List Char) : x :: s < x :: t ↔ s < t := by simp
  have hblank (s t : List Char) : ' ' :: s < 'T' :: t := List.cons_lt_cons_iff.2 (.inl (by decide))
  have heq : a.day = b.day ↔ yearOf a.day = yearOf b.day ∧ monthOf a.day = monthOf b.day ∧ dayOf a.day = dayOf b.day := by
    refine ⟨fun h => by rw [h]; exact ⟨rfl, rfl, rfl⟩, fun ⟨hy, hm, hd⟩ => ?_⟩
    rw [← dayNumber_fields a.day, hy, hm, hd, dayNumber_fields]
  obtain ⟨time, htime⟩ := isoformat_eq ' ' a
  obtain ⟨time', htime'⟩ := isoformat_eq 'T' b
  rw [htime, htime', zeroPad_append_lt (by decide) hyear hyear', hsep, zeroPad_append_lt (by decide) hmonth hmonth', hsep,
    zeroPad_append_lt (by decide) hday hday', iff_true_intro (hblank time time'), and_true, Nat.le_iff_lt_or_eq, lt_iff_fields a.day b.day, heq]
  omega

/-! ## What is left out -/

variable {P : Type}

/-- Files of rejections, each of them a row that could be written. -/
structure StoredRejections (P : Type) where
  groups : List (FilePath × List (RejectedRecord P Clock))
  names : ∀ group ∈ groups, DlqStore.isRejectedFile group.1 = true
  rows : ∀ group ∈ groups, ∀ r ∈ group.2, r.Storable

namespace StoredRejections

/-- What a queue has written. -/
def ofRows (w : DlqWriter P) (rows : List (RejectedRecord P Clock)) (h : ∀ r ∈ rows, r.Storable) : StoredRejections P where
  groups := DlqStore.byFile w rows
  names := DlqStore.byFile_names w rows
  rows := DlqStore.byFile_storable h

/-- The rows in the order in which they are read. -/
def all (s : StoredRejections P) : List (RejectedRecord P Clock) := (DlqStore.inOrder s.groups).flatMap Prod.snd

theorem mem_all {s : StoredRejections P} {r : RejectedRecord P Clock} : r ∈ s.all ↔ ∃ group ∈ s.groups, r ∈ group.2 := by
  have hperm : (DlqStore.inOrder s.groups).Perm s.groups := List.mergeSort_perm _ _
  rw [all, List.mem_flatMap]
  constructor
  · rintro ⟨group, hgroup, hr⟩
    exact ⟨group, hperm.mem_iff.1 hgroup, hr⟩
  · rintro ⟨group, hgroup, hr⟩
    exact ⟨group, hperm.mem_iff.2 hgroup, hr⟩

/-- The rows recorded at or after the bound are yielded, and no others. -/
def Honours (w : DlqWriter P) (s : StoredRejections P) (since : Clock) : Prop :=
  DlqStore.iterRejected (some since) (DlqStore.filesOf w s.groups) =
    (.ok (), (s.all.filter (since ≤ ·.rejectedAt)).map (RejectedRecord.toValue w))

end StoredRejections

/-- The rows of the day of the bound are left out, with those before it. -/
theorem isRecent_eq (since : Clock) (r : RejectedRecord P Clock) :
    DlqStore.isRecent (some since) r = decide (since.day < r.rejectedAt.day) := by
  have hlt : Text.ofChars (r.rejectedAt.isoformat ' ') < Text.ofChars (since.isoformat 'T') ↔ r.rejectedAt.day ≤ since.day :=
    ofChars_lt.trans (isoformat_lt r.rejectedAt since)
  rw [DlqStore.isRecent, Option.all_some, decide_eq_decide.2 hlt, ← decide_not, decide_eq_decide, Nat.not_le]

theorem day_mono {a b : Clock} (h : a.day < b.day) : a ≤ b := by
  rw [Clock.le_def]
  by_contra hlt
  have hdiv : b.micros / dayMicros ≤ a.micros / dayMicros := Nat.div_le_div_right (Nat.le_of_lt (Nat.not_le.1 hlt))
  exact absurd h (Nat.not_lt.2 hdiv)

namespace StoredRejections

/-- The bound is honoured unless a row was recorded on its day, at or after it. -/
theorem honours_iff (w : DlqWriter P) (s : StoredRejections P) (since : Clock) :
    s.Honours w since ↔ ∀ group ∈ s.groups, ∀ r ∈ group.2, r.rejectedAt.day = since.day → r.rejectedAt < since := by
  have hrecent : s.all.filter (DlqStore.isRecent (some since)) =
      (s.all.filter (since ≤ ·.rejectedAt)).filter (DlqStore.isRecent (some since)) := by
    rw [List.filter_filter]
    refine List.filter_congr fun r _ => ?_
    rw [isRecent_eq]
    by_cases hday : since.day < r.rejectedAt.day
    · simp [hday, day_mono hday]
    · simp [hday]
  unfold Honours
  rw [DlqStore.iterRejected_filesOf (some since) s.names s.rows, Prod.mk.injEq, and_iff_right rfl]
  change (s.all.filter (DlqStore.isRecent (some since))).map (RejectedRecord.toValue w) = _ ↔ _
  rw [hrecent]
  constructor
  · intro h group hgroup r hr hday
    by_contra hnot
    -- the row is due, so one row at least is missing
    have hdue : r ∈ s.all.filter (since ≤ ·.rejectedAt) :=
      List.mem_filter.2 ⟨mem_all.2 ⟨group, hgroup, hr⟩, decide_eq_true (Nat.not_lt.1 hnot)⟩
    have hlength := congrArg List.length h
    rw [List.length_map, List.length_map] at hlength
    have hkept := List.filter_eq_self.1 (List.filter_sublist.eq_of_length hlength) r hdue
    rw [isRecent_eq, decide_eq_true_eq] at hkept
    omega
  · intro h
    refine congrArg _ (List.filter_eq_self.2 fun r hr => ?_)
    obtain ⟨hmem, hdue⟩ := List.mem_filter.1 hr
    obtain ⟨group, hgroup, hr⟩ := mem_all.1 hmem
    have hle : since ≤ r.rejectedAt := of_decide_eq_true hdue
    rw [isRecent_eq, decide_eq_true_eq]
    refine lt_of_le_of_ne (Nat.div_le_div_right hle) fun hday => ?_
    exact absurd (h group hgroup r hr hday.symm) (Nat.not_lt.2 hle)

/-! ## A row of the same moment -/

def loneRow : RejectedRecord Unit Clock where
  reason := .unparseable
  stage := "parse"
  detail := []
  source := []
  lineNumber := none
  raw := []
  rawHash := ""
  rejectedAt := Timeutil.minTimestamp
  partialRow := none

theorem loneRow_storable : ∀ r ∈ [loneRow], r.Storable := by
  intro r hr
  rw [List.mem_singleton.1 hr]
  exact ⟨rfl, rfl, rfl, fun _ h => absurd h (Option.not_mem_none _)⟩

/-- What was recorded at the bound is not yielded. -/
theorem same_moment_left_out :
    ¬ (ofRows SharedQueue.plainWriter [loneRow] loneRow_storable).Honours SharedQueue.plainWriter Timeutil.minTimestamp := by
  have hgroups : (ofRows SharedQueue.plainWriter [loneRow] loneRow_storable).groups =
      [(DlqStore.dayPath SharedQueue.plainWriter loneRow.rejectedAt.day, [loneRow])] := rfl
  have hall : (ofRows SharedQueue.plainWriter [loneRow] loneRow_storable).all = [loneRow] := by
    rw [all, hgroups, DlqStore.inOrder, List.mergeSort_singleton, List.flatMap_singleton]
  intro h
  have hread := DlqStore.iterRejected_filesOf (w := SharedQueue.plainWriter) (some Timeutil.minTimestamp)
    (ofRows SharedQueue.plainWriter [loneRow] loneRow_storable).names (ofRows SharedQueue.plainWriter [loneRow] loneRow_storable).rows
  have hyields := congrArg (fun x => x.2.length) (hread.symm.trans h)
  change ((all _).filter _ |>.map _).length = ((all _).filter _ |>.map _).length at hyields
  rw [hall, List.length_map, List.length_map, List.filter_singleton, List.filter_singleton, isRecent_eq] at hyields
  have hdue : decide (Timeutil.minTimestamp ≤ loneRow.rejectedAt) = true := decide_eq_true (Nat.le_refl _)
  have hlate : decide (Timeutil.minTimestamp.day < loneRow.rejectedAt.day) = false := decide_eq_false (Nat.lt_irrefl _)
  rw [hdue, hlate] at hyields
  cases hyields

end StoredRejections

end LogAnalytics
