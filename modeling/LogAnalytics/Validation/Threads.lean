import LogAnalytics.Validation.DeadLetterLog
/-!
# Threads that share a queue

A call of `record` builds its record outside the lock and writes it inside; calls of several threads
come in any order. The counters, the cap and the files after any run.
-/
open LogAnalytics.Lib

namespace LogAnalytics

variable {P : Type}

/-! ## One write after the other -/

/-- What a queue has made of the records, in the order in which they were written. -/
structure DeadLetterQueue.Exact (c : DlqConfig P) (records : List (RejectedRecord P Clock)) (q : DeadLetterQueue P Clock) :
    Prop where
  counts : ∀ reason, count reason q.counts = records.countP (·.reason.toStr = reason)
  total : Lib.total q.counts = records.length
  rows : q.rows = records.take c.maxRecords
  written : q.written = min records.length c.maxRecords
  dropped : q.dropped = records.length - q.written

theorem DeadLetterQueue.Exact.write {c : DlqConfig P} (henabled : c.enabled = true) {records : List (RejectedRecord P Clock)}
    {q : DeadLetterQueue P Clock} (h : q.Exact c records) (r : RejectedRecord P Clock) :
    (DeadLetterQueue.write c {} q r).2.Exact c (records ++ [r]) := by
  obtain ⟨hcounts, htotal, hrows, hwritten, hdropped⟩ := h
  have hcount (reason : String) : count reason (increment r.reason.toStr q.counts) =
      (records ++ [r]).countP (·.reason.toStr = reason) := by
    rw [count_increment, hcounts, List.countP_append, List.countP_singleton]
    simp
  have hall : Lib.total (increment r.reason.toStr q.counts) = (records ++ [r]).length := by
    rw [total_increment, htotal, List.length_append, List.length_singleton]
  have hlength : (records ++ [r]).length = records.length + 1 := List.length_append
  unfold DeadLetterQueue.write
  dsimp only
  rw [henabled, Bool.not_true, if_neg Bool.false_ne_true]
  by_cases hfull : c.maxRecords ≤ q.written
  · rw [if_pos hfull]
    refine ⟨hcount, hall, ?_, ?_, ?_⟩
    · rw [hrows, List.take_append_of_le_length (by omega)]
    · rw [hlength, hwritten]
      omega
    · dsimp only
      rw [hlength, hdropped]
      omega
  · rw [if_neg hfull]
    have hroom : records.length < c.maxRecords := by omega
    have htake : q.rows ++ [r] = (records ++ [r]).take c.maxRecords := by
      rw [hrows, List.take_of_length_le (Nat.le_of_lt hroom), List.take_of_length_le (by rw [hlength]; omega)]
    split <;> refine ⟨hcount, hall, htake, ?_, ?_⟩ <;> dsimp only <;> omega

/-! ## Threads -/

/-- A call of `record`; its line number can be printed. -/
structure RecordCall (P : Type) where
  rejection : Rejection P
  lineNumber : ∀ n ∈ rejection.lineNumber, n < textLimit

/-- A queue, and the records that threads have built and not written yet. -/
structure SharedQueue (P : Type) where
  store : DlqStore := {}
  pending : List (Nat × RejectedRecord P Clock) := []

inductive QueueInput (P : Type) where
  /-- A thread calls `record`, which masks and builds the record. -/
  | build (thread : Nat) (now : Clock) (call : RecordCall P)
  /-- The thread has the lock. -/
  | write (thread : Nat)
  | close

namespace SharedQueue

/-- One step of one thread; it shows the record a call returns. -/
def step (c : DlqConfig P) (w : DlqWriter P) (s : SharedQueue P) : QueueInput P → Option (SharedQueue P × List (RejectedRecord P Clock))
  | .build thread now call =>
    if (s.pending.lookup thread).isSome then none
    else
      match DeadLetterQueue.rejected c now call.rejection with
      | .error _ => some (s, [])
      | .ok row => some ({ s with pending := s.pending ++ [(thread, row)] }, [])
  | .write thread =>
    match s.pending.lookup thread with
    | none => none
    | some row =>
      let (result, store) := s.store.write c w row
      some ({ store := store, pending := s.pending.filter (·.1 ≠ thread) }, if result.isOk then [row] else [])
  | .close => some ({ s with store := s.store.close }, [])

/-- What holds after any run, for the records returned so far. -/
def Consistent (c : DlqConfig P) (w : DlqWriter P) (s : SharedQueue P) (returned : List (RejectedRecord P Clock)) : Prop :=
  (∀ item ∈ s.pending, item.2.Storable) ∧ (∀ r ∈ returned, r.Storable) ∧
    ∃ q, DlqStore.Simulates w s.store q ∧ q.Exact c returned

/-- A record that was built can be written. -/
theorem rejected_storable {c : DlqConfig P} {now : Clock} {call : RecordCall P} {row : RejectedRecord P Clock}
    (h : DeadLetterQueue.rejected c now call.rejection = .ok row) : row.Storable := by
  obtain ⟨hdetail, hsource, hraw⟩ := DeadLetterQueue.rejected_eq_ok.1 ⟨row, h⟩
  unfold DeadLetterQueue.rejected at h
  dsimp only at h
  rw [hdetail, hsource, hraw] at h
  cases h
  exact ⟨hdetail, hsource, hraw, call.lineNumber⟩

theorem step_consistent {c : DlqConfig P} {w : DlqWriter P} (henabled : c.enabled = true) {s t : SharedQueue P}
    {input : QueueInput P} {shown returned : List (RejectedRecord P Clock)} (h : Consistent c w s returned)
    (hstep : step c w s input = some (t, shown)) : Consistent c w t (returned ++ shown) := by
  obtain ⟨hpending, hreturned, q, hsimulates, hexact⟩ := h
  cases input with
  | build thread now call =>
    rw [step] at hstep
    split at hstep
    · cases hstep
    · cases hrow : DeadLetterQueue.rejected c now call.rejection with
      | error exn =>
        rw [hrow] at hstep
        cases hstep
        rw [List.append_nil]
        exact ⟨hpending, hreturned, q, hsimulates, hexact⟩
      | ok row =>
        rw [hrow] at hstep
        cases hstep
        rw [List.append_nil]
        refine ⟨fun item hitem => ?_, hreturned, q, hsimulates, hexact⟩
        rcases List.mem_append.1 hitem with hitem | hitem
        · exact hpending item hitem
        · rw [List.mem_singleton.1 hitem]
          exact rejected_storable hrow
  | write thread =>
    rw [step] at hstep
    cases hlookup : s.pending.lookup thread with
    | none =>
      rw [hlookup] at hstep
      cases hstep
    | some row =>
      have hrow : row.Storable := by
        obtain ⟨before, after, hsplit, -⟩ := List.lookup_eq_some_iff.1 hlookup
        exact hpending (thread, row) (by rw [hsplit]; simp)
      obtain ⟨hok, hnext⟩ := DlqStore.write_simulates c hsimulates hrow
      rw [hlookup] at hstep
      dsimp only at hstep
      rw [hok] at hstep
      cases hstep
      refine ⟨fun item hitem => hpending item (List.mem_of_mem_filter hitem), fun r hr => ?_, _, hnext, hexact.write henabled row⟩
      rcases List.mem_append.1 hr with hr | hr
      · exact hreturned r hr
      · rw [List.mem_singleton.1 hr]
        exact hrow
  | close =>
    cases hstep
    rw [List.append_nil]
    exact ⟨hpending, hreturned, q, ⟨hsimulates.counts, hsimulates.written, hsimulates.dropped, hsimulates.sinceFlush,
      hsimulates.files⟩, hexact⟩

/-- After any run the counters are exact, the cap is kept, and what is read back is what was
written. -/
theorem log_exact {c : DlqConfig P} {w : DlqWriter P} (henabled : c.enabled = true) {inputs : List (QueueInput P)}
    {t : SharedQueue P} {returned : List (RejectedRecord P Clock)} (h : runs (step c w) {} inputs = some (t, returned)) :
    (∀ reason, count reason t.store.counts = returned.countP (·.reason.toStr = reason)) ∧
    total t.store.counts = returned.length ∧
    t.store.written = min (total t.store.counts) c.maxRecords ∧
    t.store.dropped = total t.store.counts - t.store.written ∧
    ∃ days : List Nat, days.Nodup ∧
      (∀ day, day ∈ days ↔ ∃ r ∈ returned.take c.maxRecords, r.rejectedAt.day = day) ∧
      DlqStore.iterRejected none t.store.close.files =
        (.ok (), days.flatMap fun day =>
          ((returned.take c.maxRecords).filter (·.rejectedAt.day = day)).map (RejectedRecord.toValue w)) := by
  have hempty : Consistent c w {} [] :=
    ⟨fun item hitem => absurd hitem List.not_mem_nil, fun r hr => absurd hr List.not_mem_nil, {}, DlqStore.simulates_empty w,
      fun _ => rfl, rfl, List.take_nil.symm, (Nat.zero_min _).symm, rfl⟩
  obtain ⟨-, hreturned, q, hsimulates, hexact⟩ :=
    runs_inv (Consistent c w) (fun s x s' o tr hI hs => step_consistent henabled hI hs) hempty h
  rw [hsimulates.counts, hsimulates.written, hsimulates.dropped]
  refine ⟨hexact.counts, hexact.total, ?_, ?_, ?_⟩
  · rw [hexact.total, hexact.written]
  · rw [hexact.total, hexact.dropped]
  · rw [show t.store.close.files = t.store.files from rfl, hsimulates.files, hexact.rows]
    exact DlqStore.iterRejected_byFile fun r hr => hreturned r (List.mem_of_mem_take hr)

/-! ## Two threads -/

def plainWriter : DlqWriter Unit where
  runId := Text.ofString "adhoc"
  dumps _ := []
  dumps_ascii _ := rfl

def oneRecord : DlqConfig Unit where
  maskText := id
  maskMapping := id
  contentHash _ := ""
  refusal := ""
  maxRecords := 1
  enabled := true

def parseCall (raw : String) : RecordCall Unit where
  rejection := { raw := Text.ofString raw, reason := .unparseable, stage := "parse", detail := [], source := [] }
  lineNumber _ h := absurd h (Option.not_mem_none _)

/-- The thread that comes second writes first; there is room for its record alone. -/
def overtaking : List (QueueInput Unit) :=
  [.build 0 Timeutil.minTimestamp (parseCall "first"), .build 1 Timeutil.minTimestamp (parseCall "second"), .write 1, .write 0, .close]

set_option maxRecDepth 4000 in
theorem log_exact_overtaking : ∃ t returned, runs (step oneRecord plainWriter) {} overtaking = some (t, returned) ∧
    t.store.written = min (total t.store.counts) 1 ∧ t.store.dropped = total t.store.counts - t.store.written := by
  have henabled : oneRecord.enabled = true := rfl
  obtain ⟨t, returned, hrun⟩ : ∃ t returned, runs (step oneRecord plainWriter) {} overtaking = some (t, returned) :=
    ⟨_, _, rfl⟩
  obtain ⟨-, -, hwritten, hdropped, -⟩ := log_exact henabled hrun
  exact ⟨t, returned, hrun, hwritten, hdropped⟩

end SharedQueue

end LogAnalytics
