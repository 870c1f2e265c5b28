import LogAnalytics.Validation.Recovery
/-!
# What a crash can lose

A row that was written is in the buffer of its file until the file is flushed: the one that was just
written to, whenever `FLUSH_EVERY` rows have come to the queue since the last flush. The files of other
days are not flushed with it.
-/
open LogAnalytics.Lib

namespace LogAnalytics

variable {P : Type} {w : DlqWriter P}

/-- A queue, and how many bytes of each file were handed over by a flush. -/
structure BufferedQueue (P : Type) where
  queue : SharedQueue P := {}
  flushed : FilePath → Nat := fun _ => 0

namespace BufferedQueue

/-- The bytes of a file, those in its buffer included. -/
def size (files : List (FilePath × Text)) (path : FilePath) : Nat := Text.utf8Length ((files.lookup path).getD [])

/-- The row of the thread was written, and the flush is due. -/
def isDue (before after : DlqStore) : Bool :=
  decide (before.written < after.written) && decide (DeadLetterQueue.flushEvery ≤ before.sinceFlush + 1)

/-- What is flushed in a step: the file that was written to, and on `close` all of them. -/
def flush (w : DlqWriter P) (s : BufferedQueue P) (queue : SharedQueue P) : QueueInput P → FilePath → Nat
  | .build .. => s.flushed
  | .write thread =>
    match s.queue.pending.lookup thread with
    | some row =>
      if isDue s.queue.store queue.store then
        Function.update s.flushed (DlqStore.dayPath w row.rejectedAt.day) (size queue.store.files (DlqStore.dayPath w row.rejectedAt.day))
      else s.flushed
    | none => s.flushed
  | .close => size queue.store.files

def step (c : DlqConfig P) (w : DlqWriter P) (s : BufferedQueue P) (input : QueueInput P) :
    Option (BufferedQueue P × List (RejectedRecord P Clock)) :=
  (SharedQueue.step c w s.queue input).map fun (queue, shown) => ({ queue := queue, flushed := flush w s queue input }, shown)

/-! ## Days -/

/-- The rows of a day. -/
def ofDay (day : Nat) (rows : List (RejectedRecord P Clock)) : List (RejectedRecord P Clock) :=
  rows.filter fun r => r.rejectedAt.day = day

theorem size_filesOf (w : DlqWriter P) (rows : List (RejectedRecord P Clock)) (now : Clock) :
    size (DlqStore.filesOf w (DlqStore.byFile w rows)) (DlqStore.dayPath w now.day) =
      Text.utf8Length (DlqStore.fileText w (ofDay now.day rows)) := by
  obtain ⟨hnodup, hbuckets, hkeys⟩ := grouped_groupBy (fun r : RejectedRecord P Clock => DlqStore.dayPath w r.rejectedAt.day) rows
  have hnames : (DlqStore.filesOf w (DlqStore.byFile w rows)).map Prod.fst = (DlqStore.byFile w rows).map Prod.fst := by
    rw [DlqStore.filesOf, List.map_map]
    rfl
  have hday : ∀ rows : List (RejectedRecord P Clock),
      rows.filter (fun r => DlqStore.dayPath w r.rejectedAt.day = DlqStore.dayPath w now.day) = ofDay now.day rows := by
    intro rows
    refine List.filter_congr fun r _ => decide_eq_decide.2 ?_
    exact ⟨fun h => DlqStore.dayPath_injective h, fun h => congrArg (DlqStore.dayPath w) h⟩
  by_cases hpath : DlqStore.dayPath w now.day ∈ (DlqStore.byFile w rows).map Prod.fst
  · obtain ⟨⟨path, group⟩, hgroup, heq⟩ := List.mem_map.1 hpath
    obtain rfl : path = DlqStore.dayPath w now.day := heq
    have hrows : group = ofDay now.day rows := (hbuckets _ hgroup).trans (hday rows)
    have hfile : (DlqStore.dayPath w now.day, DlqStore.fileText w group) ∈ DlqStore.filesOf w (DlqStore.byFile w rows) :=
      List.mem_map.2 ⟨_, hgroup, rfl⟩
    rw [size, lookup_of_nodup (hnames ▸ hnodup) hfile, hrows]
    rfl
  · have hnone : ofDay now.day rows = [] := by
      rw [← hday, List.filter_eq_nil_iff]
      intro r hr heq
      exact hpath ((hkeys _).2 ⟨r, hr, of_decide_eq_true heq⟩)
    rw [size, lookup_none.2 (hnames ▸ hpath), hnone]
    rfl

/-! ## What is in the buffers -/

/-- Days do not go back. -/
def InOrder (rows : List (RejectedRecord P Clock)) : Prop := rows.Pairwise fun a b => a.rejectedAt.day ≤ b.rejectedAt.day

/-- Of every day fewer than `FLUSH_EVERY` rows are in the buffer, and of the day written last no more
than have come since the last flush. -/
def Flushed (w : DlqWriter P) (rows : List (RejectedRecord P Clock)) (sinceFlush : Nat) (flushed : FilePath → Nat) : Prop :=
  ∀ now : Clock, ∃ m ≤ (ofDay now.day rows).length,
    flushed (DlqStore.dayPath w now.day) = Text.utf8Length (DlqStore.fileText w ((ofDay now.day rows).take m)) ∧
    (ofDay now.day rows).length < m + DeadLetterQueue.flushEvery ∧
    ((∃ last ∈ rows.getLast?, last.rejectedAt.day = now.day) → (ofDay now.day rows).length ≤ m + sinceFlush)

variable {rows : List (RejectedRecord P Clock)} {sinceFlush : Nat} {flushed : FilePath → Nat}

theorem ofDay_append (day : Nat) (rows : List (RejectedRecord P Clock)) (r : RejectedRecord P Clock) :
    ofDay day (rows ++ [r]) = ofDay day rows ++ if r.rejectedAt.day = day then [r] else [] := by
  rw [ofDay, List.filter_append, List.filter_cons, List.filter_nil, ofDay]
  by_cases h : r.rejectedAt.day = day
  · rw [decide_eq_true h, if_pos rfl, if_pos h]
  · rw [decide_eq_false h, if_neg Bool.false_ne_true, if_neg h]

/-- All of a file is flushed. -/
theorem flushed_all (w : DlqWriter P) (now : Clock) (rows : List (RejectedRecord P Clock)) (sinceFlush : Nat) :
    ∃ m ≤ (ofDay now.day rows).length,
      Text.utf8Length (DlqStore.fileText w (ofDay now.day rows)) =
        Text.utf8Length (DlqStore.fileText w ((ofDay now.day rows).take m)) ∧
      (ofDay now.day rows).length < m + DeadLetterQueue.flushEvery ∧
      ((∃ last ∈ rows.getLast?, last.rejectedAt.day = now.day) → (ofDay now.day rows).length ≤ m + sinceFlush) :=
  ⟨_, Nat.le_refl _, by rw [List.take_length], Nat.lt_add_of_pos_right (by decide), fun _ => Nat.le_add_right _ _⟩

/-- A day that was not the last one has no rows yet. -/
theorem ofDay_new {r : RejectedRecord P Clock} (h : InOrder (rows ++ [r]))
    (hlast : ¬ ∃ last ∈ rows.getLast?, last.rejectedAt.day = r.rejectedAt.day) : ofDay r.rejectedAt.day rows = [] := by
  rw [ofDay, List.filter_eq_nil_iff]
  intro x hx hday
  have hday : x.rejectedAt.day = r.rejectedAt.day := of_decide_eq_true hday
  obtain ⟨before, last, rfl⟩ := (List.eq_nil_or_concat' rows).resolve_left (List.ne_nil_of_mem hx)
  refine hlast ⟨last, List.getLast?_concat, ?_⟩
  obtain ⟨hbefore, -, hbehind⟩ := List.pairwise_append.1 h
  have hle := hbehind last (List.mem_append_right _ (List.mem_singleton_self last)) r (List.mem_singleton_self r)
  rcases List.mem_append.1 hx with hx | hx
  · have hge := (List.pairwise_append.1 hbefore).2.2 x hx last (List.mem_singleton_self last)
    omega
  · rw [← List.mem_singleton.1 hx, hday]

/-- A row goes to the buffer. -/
theorem Flushed.keep (h : Flushed w rows sinceFlush flushed) {r : RejectedRecord P Clock} (horder : InOrder (rows ++ [r]))
    (hroom : sinceFlush + 1 < DeadLetterQueue.flushEvery) : Flushed w (rows ++ [r]) (sinceFlush + 1) flushed := by
  intro now
  obtain ⟨m, hm, hbytes, hfew, hsince⟩ := h now
  rw [ofDay_append]
  by_cases hday : r.rejectedAt.day = now.day
  · rw [if_pos hday]
    have hle : (ofDay now.day rows).length ≤ m + sinceFlush := by
      by_cases hlast : ∃ last ∈ rows.getLast?, last.rejectedAt.day = now.day
      · exact hsince hlast
      · rw [← hday, ofDay_new horder (hday ▸ hlast)]
        exact Nat.zero_le _
    have hlength : (ofDay now.day rows ++ [r]).length = (ofDay now.day rows).length + 1 := List.length_append
    refine ⟨m, by omega, ?_, by omega, fun _ => by omega⟩
    rw [hbytes, List.take_append_of_le_length hm]
  · rw [if_neg hday, List.append_nil]
    refine ⟨m, hm, hbytes, hfew, fun ⟨last, hlast, heq⟩ => ?_⟩
    rw [List.getLast?_concat, Option.mem_some_iff] at hlast
    rw [← hlast] at heq
    exact absurd heq hday

/-- A row goes to the buffer, and its file is flushed. -/
theorem Flushed.flush (h : Flushed w rows sinceFlush flushed) (r : RejectedRecord P Clock) :
    Flushed w (rows ++ [r]) 0 (Function.update flushed (DlqStore.dayPath w r.rejectedAt.day)
      (Text.utf8Length (DlqStore.fileText w (ofDay r.rejectedAt.day (rows ++ [r]))))) := by
  intro now
  by_cases hday : r.rejectedAt.day = now.day
  · rw [← hday, Function.update_self]
    exact flushed_all w r.rejectedAt (rows ++ [r]) 0
  · have hpath : DlqStore.dayPath w now.day ≠ DlqStore.dayPath w r.rejectedAt.day := fun heq =>
      hday (DlqStore.dayPath_injective heq).symm
    obtain ⟨m, hm, hbytes, hfew, -⟩ := h now
    rw [Function.update_of_ne hpath, ofDay_append, if_neg hday, List.append_nil]
    refine ⟨m, hm, hbytes, hfew, fun ⟨last, hlast, heq⟩ => ?_⟩
    rw [List.getLast?_concat, Option.mem_some_iff] at hlast
    rw [← hlast] at heq
    exact absurd heq hday

/-! ## Runs -/

/-- What a write does to the rows and to the count since the last flush. -/
theorem write_cases {c : DlqConfig P} (henabled : c.enabled = true) (q : DeadLetterQueue P Clock) (r : RejectedRecord P Clock) :
    let next := (DeadLetterQueue.write c {} q r).2
    (next.rows = q.rows ∧ next.written = q.written ∧ next.sinceFlush = q.sinceFlush) ∨
      (next.rows = q.rows ++ [r] ∧ next.written = q.written + 1 ∧
        next.sinceFlush = if DeadLetterQueue.flushEvery ≤ q.sinceFlush + 1 then 0 else q.sinceFlush + 1) := by
  unfold DeadLetterQueue.write
  dsimp only
  rw [henabled, Bool.not_true, if_neg Bool.false_ne_true]
  split
  · exact .inl ⟨rfl, rfl, rfl⟩
  · right
    split
    · exact ⟨rfl, rfl, rfl⟩
    · exact ⟨rfl, rfl, rfl⟩

/-- What holds after any run in which the days do not go back. -/
def Durable (c : DlqConfig P) (w : DlqWriter P) (s : BufferedQueue P) (returned : List (RejectedRecord P Clock)) : Prop :=
  SharedQueue.Consistent c w s.queue returned ∧
    (InOrder returned → s.queue.store.sinceFlush < DeadLetterQueue.flushEvery ∧
      Flushed w (returned.take c.maxRecords) s.queue.store.sinceFlush s.flushed)

theorem step_durable {c : DlqConfig P} (henabled : c.enabled = true) {s t : BufferedQueue P} {input : QueueInput P}
    {shown returned : List (RejectedRecord P Clock)} (h : Durable c w s returned) (hstep : step c w s input = some (t, shown)) :
    Durable c w t (returned ++ shown) := by
  obtain ⟨hconsistent, hflushed⟩ := h
  obtain ⟨⟨queue, shown'⟩, hqueue, heq⟩ := Option.map_eq_some_iff.1 hstep
  cases heq
  refine ⟨SharedQueue.step_consistent henabled hconsistent hqueue, fun horder => ?_⟩
  obtain ⟨hsince, hflushed⟩ := hflushed (List.pairwise_append.1 horder).1
  cases input with
  | build thread now call =>
    have hsame : queue.store = s.queue.store ∧ shown = [] := by
      rw [SharedQueue.step] at hqueue
      split at hqueue
      · cases hqueue
      · split at hqueue <;> cases hqueue <;> exact ⟨rfl, rfl⟩
    rw [hsame.2, List.append_nil]
    dsimp only
    rw [hsame.1]
    exact ⟨hsince, hflushed⟩
  | close =>
    cases hqueue
    rw [List.append_nil]
    refine ⟨hsince, fun now => ?_⟩
    obtain ⟨-, -, q, hsimulates, hexact⟩ := hconsistent
    have hsize : flush w s { s.queue with store := s.queue.store.close } .close (DlqStore.dayPath w now.day) =
        Text.utf8Length (DlqStore.fileText w (ofDay now.day (returned.take c.maxRecords))) := by
      rw [← hexact.rows, ← size_filesOf, ← hsimulates.files]
      rfl
    dsimp only
    rw [hsize]
    exact flushed_all w now _ _
  | write thread =>
    obtain ⟨hpending, -, q, hsimulates, hexact⟩ := hconsistent
    rw [SharedQueue.step] at hqueue
    cases hlookup : s.queue.pending.lookup thread with
    | none =>
      rw [hlookup] at hqueue
      cases hqueue
    | some row =>
      have hrow : row.Storable := hpending (thread, row) (mem_of_lookup hlookup)
      obtain ⟨hok, hnext⟩ := DlqStore.write_simulates c hsimulates hrow
      have hexact' := hexact.write henabled row
      rw [hlookup] at hqueue
      dsimp only at hqueue
      rw [hok] at hqueue
      cases hqueue
      rw [← hexact.rows, hsimulates.sinceFlush] at hflushed
      have hdue : isDue s.queue.store (s.queue.store.write c w row).2 =
          (decide (q.written < (DeadLetterQueue.write c {} q row).2.written) &&
            decide (DeadLetterQueue.flushEvery ≤ q.sinceFlush + 1)) := by
        rw [isDue, hsimulates.written, hnext.written, hsimulates.sinceFlush]
      have hwritten : flush w s ⟨(s.queue.store.write c w row).2, s.queue.pending.filter (·.1 ≠ thread)⟩ (.write thread) =
          if isDue s.queue.store (s.queue.store.write c w row).2 then
            Function.update s.flushed (DlqStore.dayPath w row.rejectedAt.day)
              (Text.utf8Length (DlqStore.fileText w (ofDay row.rejectedAt.day (DeadLetterQueue.write c {} q row).2.rows)))
          else s.flushed := by
        rw [flush, hlookup, ← size_filesOf, ← hnext.files]
      have hshown : (if (Except.ok () : Except Exn Unit).isOk then [row] else []) = [row] := rfl
      rw [hshown] at horder ⊢
      dsimp only
      rw [hwritten, ← hexact'.rows, hnext.sinceFlush, hdue]
      rw [hsimulates.sinceFlush] at hsince
      rcases write_cases henabled q row with ⟨hrows, hsame, hcount⟩ | ⟨hrows, hmore, hcount⟩
      · -- the queue is full
        rw [hrows, hcount, hsame, decide_eq_false (Nat.lt_irrefl _), Bool.false_and, if_neg Bool.false_ne_true]
        exact ⟨hsince, hflushed⟩
      · have hlast : InOrder (q.rows ++ [row]) := by
          rw [← hrows, hexact'.rows]
          exact horder.sublist (List.take_sublist _ _)
        rw [hrows, hcount, hmore, decide_eq_true (Nat.lt_succ_self _), Bool.true_and]
        by_cases hfull : DeadLetterQueue.flushEvery ≤ q.sinceFlush + 1
        · rw [decide_eq_true hfull, if_pos rfl, if_pos hfull]
          exact ⟨by decide, hflushed.flush row⟩
        · rw [decide_eq_false hfull, if_neg Bool.false_ne_true, if_neg hfull]
          exact ⟨Nat.not_le.1 hfull, hflushed.keep hlast (Nat.not_le.1 hfull)⟩

/-- A killed queue, of whose files everything that was flushed and maybe more is on the disk, has lost
fewer than `FLUSH_EVERY` rows of every day, the last ones, if the days do not go back. -/
theorem crash_loses_few {c : DlqConfig P} (henabled : c.enabled = true) {inputs : List (QueueInput P)} {t : BufferedQueue P}
    {returned : List (RejectedRecord P Clock)} (h : runs (step c w) {} inputs = some (t, returned)) (horder : InOrder returned)
    {kept : FilePath → Nat} (hkept : ∀ path, t.flushed path ≤ kept path) :
    ∀ group ∈ DlqStore.byFile w (returned.take c.maxRecords),
      group.2.take (group.2.length - (DeadLetterQueue.flushEvery - 1)) <+: DlqStore.survivors w (kept group.1) group.2 := by
  have hempty : Durable c w {} [] := by
    have hpos : 0 < DeadLetterQueue.flushEvery := by decide
    refine ⟨SharedQueue.consistent_empty c w, fun _ => ⟨hpos, fun now => ⟨0, Nat.zero_le _, rfl, ?_, fun _ => ?_⟩⟩⟩
    · rw [List.take_nil]
      exact hpos
    · rw [List.take_nil]
      exact Nat.zero_le _
  obtain ⟨-, hflushed⟩ := runs_inv (Durable c w) (fun s x s' o tr hI hs => step_durable henabled hI hs) hempty h
  obtain ⟨-, hflushed⟩ := hflushed horder
  intro group hgroup
  obtain ⟨⟨first, -, hfirst⟩, hpath, hrows⟩ := DlqStore.mem_byFile hgroup
  obtain ⟨m, hm, hbytes, hfew, -⟩ := hflushed first.rejectedAt
  have hday : ofDay first.rejectedAt.day (returned.take c.maxRecords) = group.2 := by rw [hfirst, hrows]; rfl
  rw [hday] at hm hbytes hfew
  rw [hfirst, ← hpath] at hbytes
  obtain ⟨k, -, hsurvive, -, hbeyond⟩ := DlqStore.survivors_spec w (kept group.1) group.2
  -- more than the flushed rows are there
  have hmk : m ≤ k := by
    by_contra hlt
    have hprefix : group.2.take (k + 1) <+: group.2.take m := List.take_prefix_take_left (Nat.not_le.1 hlt)
    have hsize : Text.utf8Length (DlqStore.fileText w (group.2.take (k + 1))) ≤
        Text.utf8Length (DlqStore.fileText w (group.2.take m)) := by
      obtain ⟨more, hmore⟩ := hprefix
      rw [← hmore, DlqStore.fileText, DlqStore.fileText, List.flatMap_append, Text.utf8Length_append]
      exact Nat.le_add_right _ _
    have hcut := hbeyond (by omega)
    have hall := hkept group.1
    omega
  rw [hsurvive]
  exact List.take_prefix_take_left (by omega)

set_option maxRecDepth 4000 in
theorem crash_loses_few_overtaking : ∃ t returned,
    runs (step SharedQueue.oneRecord SharedQueue.plainWriter) {} SharedQueue.overtaking = some (t, returned) ∧
      ∀ group ∈ DlqStore.byFile SharedQueue.plainWriter (returned.take 1),
        group.2.take (group.2.length - (DeadLetterQueue.flushEvery - 1)) <+:
          DlqStore.survivors SharedQueue.plainWriter (t.flushed group.1) group.2 := by
  have henabled : SharedQueue.oneRecord.enabled = true := rfl
  obtain ⟨t, returned, hrun, horder⟩ : ∃ t returned,
      runs (step SharedQueue.oneRecord SharedQueue.plainWriter) {} SharedQueue.overtaking = some (t, returned) ∧ InOrder returned :=
    ⟨_, _, rfl, List.pairwise_pair.2 (Nat.le_refl Timeutil.minTimestamp.day)⟩
  exact ⟨t, returned, hrun, crash_loses_few henabled hrun horder fun _ => Nat.le_refl _⟩

end BufferedQueue

end LogAnalytics
