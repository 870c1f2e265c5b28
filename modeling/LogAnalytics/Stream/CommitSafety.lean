import LogAnalytics.Stream.Consumer
/-!
# Nothing is acknowledged before it is stored

Every message polled so far is waiting in the batch or was handled; every accepted event is
in the buffer or in a published batch; every key the deduplicator knows is the key of an
accepted event. When the loop reaches its commit, nothing waits and the buffer is empty.
-/
open LogAnalytics.Lib LogAnalytics.Stream.StreamProcessor

namespace LogAnalytics.Stream.Consumer

variable {R E K τ F σ : Type}

/-- The messages polled so far, oldest first. -/
def polled (tr : List (Obs E)) : List String :=
  tr.filterMap fun
    | .polled m => some m
    | _ => none

/-- The messages handled so far, with what became of each. -/
def handled (tr : List (Obs E)) : List (String × Outcome E) :=
  tr.filterMap fun
    | .handled m outcome => some (m, outcome)
    | _ => none

@[simp] theorem polled_append (tr o : List (Obs E)) : polled (tr ++ o) = polled tr ++ polled o := List.filterMap_append

@[simp] theorem handled_append (tr o : List (Obs E)) : handled (tr ++ o) = handled tr ++ handled o :=
  List.filterMap_append

/-- What a flush shows is not about messages. -/
@[simp] theorem polled_flushObs (before : List E) (r : Except Exn Nat × StreamProcessor E K σ) :
    polled (flushObs before r) = [] := by
  unfold flushObs
  split
  · rfl
  · split <;> rfl

@[simp] theorem handled_flushObs (before : List E) (r : Except Exn Nat × StreamProcessor E K σ) :
    handled (flushObs before r) = [] := by
  unfold flushObs
  split
  · rfl
  · split <;> rfl

/-- A batch for which both store calls returned. -/
def Persisted (b : StorageBackend E F σ) (batch : List E) : Prop :=
  ∃ (writeFs flushFs : F) (s s' : σ) (runId : String),
    b.write writeFs s batch runId = (.ok (), s') ∧ (b.flush flushFs s').1 = .ok ()

/-- The event is in a published batch. -/
def Published (tr : List (Obs E)) (e : E) : Prop := ∃ batch, .published batch ∈ tr ∧ e ∈ batch

theorem Published.append {tr : List (Obs E)} {e : E} (h : Published tr e) (o : List (Obs E)) : Published (tr ++ o) e := by
  obtain ⟨batch, hb, he⟩ := h
  exact ⟨batch, List.mem_append_left o hb, he⟩

variable (c : Consumer R E K τ F σ)

/-! ## Messages, events and keys -/

structure Delivery (s : Session E K σ) (tr : List (Obs E)) : Prop where
  order : ∀ l, s.pc.waiting = some l → polled tr = (handled tr).map (·.1) ++ l
  returned : s.pc.waiting ≠ none → ∀ x ∈ handled tr, x.2 ≠ .raised
  counted : s.pc.waiting ≠ none → s.processor.stats.rejected = (handled tr).countP (·.2.isRejected)
  accepted : ∀ m e, (m, .accepted e) ∈ handled tr → e ∈ s.processor.buffer ∨ Published tr e
  duplicate : ∀ m e, (m, .duplicate e) ∈ handled tr →
    ∃ k m' e', c.stages.key e = some k ∧ (m', .accepted e') ∈ handled tr ∧ c.stages.key e' = some k
  seen : ∀ k ∈ s.processor.deduplicator.seen.keys, ∃ m e, (m, .accepted e) ∈ handled tr ∧ c.stages.key e = some k
  empty : s.pc = .committing → s.processor.buffer = []

variable {c}

theorem delivery_start {p : StreamProcessor E K σ} (hr : p.stats.rejected = 0)
    (hk : p.deduplicator.seen.keys = []) (offset : Nat) : Delivery c (c.start p offset) [] := by
  obtain ⟨hp, -, -, hpc⟩ := c.start_spec p offset
  constructor
  · intro l hl
    rcases hpc with h | h <;> rw [h] at hl <;> cases hl
    rfl
  · intro _ x hx; cases hx
  · intro _; rw [hp]; exact hr
  · intro m e he; cases he
  · intro m e he; cases he
  · intro k hks; rw [hp, hk] at hks; cases hks
  · intro hc; rcases hpc with h | h <;> rw [h] at hc <;> cases hc

/-- A step that only moves on, with nothing shown. -/
theorem Delivery.idle {s s' : Session E K σ} {tr : List (Obs E)} (hd : Delivery c s tr) (h : Idle s s') :
    Delivery c s' tr := by
  obtain ⟨hp, -, -, hpc⟩ := h
  have hw : ∀ l, s'.pc.waiting = some l → s.pc.waiting = some l := by
    intro l hl
    rcases hpc with h | h | ⟨-, h⟩
    · rwa [← h]
    · rw [h] at hl; cases hl
    · rwa [← h]
  have hn : s'.pc.waiting ≠ none → s.pc.waiting ≠ none := by
    intro hne
    obtain ⟨l, hl⟩ := Option.ne_none_iff_exists'.1 hne
    simp [hw l hl]
  constructor
  · exact fun l hl => hd.order l (hw l hl)
  · exact fun hne => hd.returned (hn hne)
  · rw [hp]; exact fun hne => hd.counted (hn hne)
  · rw [hp]; exact hd.accepted
  · exact hd.duplicate
  · rw [hp]; exact hd.seen
  · intro hc
    rcases hpc with h | h | ⟨h, -⟩
    · rw [hp]; exact hd.empty (by rw [← h]; exact hc)
    · rw [hc] at h; cases h
    · exact absurd hc h

/-- Polling a message adds it to the batch. -/
theorem Delivery.delivered {s : Session E K σ} {tr : List (Obs E)} (hd : Delivery c s tr) {messages : List String}
    (hs : s.pc = .polling messages) (m : String) :
    Delivery c { s with position := s.position + 1, pc := .polling (messages ++ [m]) } (tr ++ [.polled m]) := by
  have hwait : s.pc.waiting = some messages := by rw [hs]; rfl
  have hne : s.pc.waiting ≠ none := by rw [hwait]; simp
  have hobs : Consumer.handled (tr ++ [Obs.polled m]) = Consumer.handled tr := by simp [Consumer.handled]
  constructor
  · intro l hl
    cases hl
    rw [hobs, polled_append, hd.order _ hwait, List.append_assoc]
    rfl
  · rw [hobs]; exact fun _ => hd.returned hne
  · rw [hobs]; exact fun _ => hd.counted hne
  · rw [hobs]; exact fun m' e he => (hd.accepted m' e he).imp id fun h => h.append _
  · rw [hobs]; exact hd.duplicate
  · rw [hobs]; exact hd.seen
  · intro h; cases h

/-- A flush moves the buffer into a published batch or leaves it. -/
theorem Delivery.flushed {s : Session E K σ} {tr : List (Obs E)} (hd : Delivery c s tr) {env : FlushEnv F}
    {r : Except Exn Nat} {q : StreamProcessor E K σ} {pc : Pc} (h : FlushEffect c.backend env s.processor r q)
    (hpc : pc = .committing ∧ s.pc = .handling [] ∧ (∃ n, r = .ok n) ∨ pc.waiting = none) :
    Delivery c { s with pc := pc, processor := q } (tr ++ flushObs s.processor.buffer (r, q)) := by
  have hobs : Consumer.handled (tr ++ flushObs s.processor.buffer (r, q)) = Consumer.handled tr := by simp
  have hne : pc.waiting ≠ none → s.pc.waiting = some [] ∧ pc.waiting = some [] := by
    intro hn
    rcases hpc with ⟨rfl, hs, -⟩ | h
    · exact ⟨by rw [hs]; rfl, rfl⟩
    · exact absurd h hn
  constructor
  · intro l hl
    obtain ⟨hw, hw'⟩ := hne (by rw [hl]; simp)
    rw [hw'] at hl
    cases hl
    rw [hobs, polled_append, polled_flushObs, List.append_nil]
    exact hd.order _ hw
  · rw [hobs]; exact fun hn => hd.returned (by rw [(hne hn).1]; simp)
  · intro hn
    rw [hobs, ← hd.counted (by rw [(hne hn).1]; simp)]
    cases h <;> rfl
  · intro m e he
    rw [hobs] at he
    rcases hd.accepted m e he with hb | hb
    · cases h with
      | empty => exact .inl hb
      | writeFailed => exact .inl hb
      | flushFailed => exact .inl hb
      | published _ hbuf =>
        refine .inr ⟨s.processor.buffer, List.mem_append_right _ ?_, hb⟩
        simp [flushObs, hbuf]
    · exact .inr (hb.append _)
  · rw [hobs]; exact hd.duplicate
  · rw [hobs]
    have hk : q.deduplicator = s.processor.deduplicator := by cases h <;> rfl
    rw [hk]
    exact hd.seen
  · intro hc
    rcases hpc with ⟨-, -, n, rfl⟩ | hn
    · exact flush_ok_buffer h
    · obtain rfl : pc = .committing := hc
      cases hn

theorem Delivery.committed {s s' : Session E K σ} {tr : List (Obs E)} (hd : Delivery c s tr) {acknowledged : Bool}
    (hs : s.pc = .committing) (hp : s'.processor = s.processor) (hpc : s'.pc = .polling [] ∨ s'.pc = .draining none) :
    Delivery c s' (tr ++ [.committed acknowledged]) := by
  have hwait : s.pc.waiting = some [] := by rw [hs]; rfl
  have hne : s.pc.waiting ≠ none := by rw [hwait]; simp
  have hobs : Consumer.handled (tr ++ [.committed acknowledged]) = Consumer.handled tr := by simp [Consumer.handled]
  constructor
  · intro l hl
    rcases hpc with h | h <;> rw [h] at hl <;> cases hl
    rw [hobs, polled_append, hd.order _ hwait]
    simp [polled]
  · rw [hobs]; exact fun _ => hd.returned hne
  · rw [hobs, hp]; exact fun _ => hd.counted hne
  · rw [hobs, hp]; exact fun m' e he => (hd.accepted m' e he).imp id fun h => h.append _
  · rw [hobs]; exact hd.duplicate
  · rw [hobs, hp]; exact hd.seen
  · intro hc; rcases hpc with h | h <;> rw [h] at hc <;> cases hc

section
variable [DecidableEq K]

/-- The message leaves the batch for exactly one outcome. -/
theorem Delivery.handled {s : Session E K σ} {tr : List (Obs E)} (hd : Delivery c s tr) {m : String}
    {rest : List String} {now : τ} {r : Except Exn (Option E)} {q : StreamProcessor E K σ} {pc : Pc}
    (hs : s.pc = .handling (m :: rest)) (h : HandleEffect c.stages now (.text m) s.processor r q)
    (hpc : pc = .handling rest ∧ (∀ exn, r ≠ .error exn) ∨ pc.waiting = none) :
    Delivery c { s with pc := pc, processor := q } (tr ++ [.handled m (c.outcome now m r)]) := by
  have hwait : s.pc.waiting = some (m :: rest) := by rw [hs]; rfl
  have hnc : pc ≠ .committing := by
    rcases hpc with ⟨rfl, -⟩ | h
    · simp
    · rintro rfl; cases h
  have hr : pc.waiting ≠ none → c.outcome now m r ≠ .raised := by
    intro hne
    rcases hpc with ⟨-, h⟩ | h
    · exact c.outcome_ne_raised now m h
    · exact absurd h hne
  obtain ⟨ha, -⟩ := c.handledAs h
  generalize c.outcome now m r = out at ha hr ⊢
  have hne : s.pc.waiting ≠ none := by rw [hwait]; simp
  have hcount := hd.counted hne
  have hobs : Consumer.handled (tr ++ [Obs.handled m out]) = Consumer.handled tr ++ [(m, out)] := by
    rw [handled_append]; rfl
  have hmem : ∀ x, x ∈ Consumer.handled tr → x ∈ Consumer.handled (tr ++ [Obs.handled m out]) := by
    intro x hx; rw [hobs]; exact List.mem_append_left _ hx
  have hacc : ∀ m' e, (m', Outcome.accepted e) ∈ Consumer.handled tr → e ∈ q.buffer ∨ Published (tr ++ [.handled m out]) e := by
    intro m' e he
    rcases hd.accepted m' e he with h | h
    · left
      cases ha with
      | raised hb => rwa [hb]
      | rejected _ _ _ _ hb => rwa [hb]
      | duplicate _ _ _ hb => rwa [hb]
      | accepted _ _ _ hb => rw [hb]; exact List.mem_append_left _ h
    · exact .inr (h.append _)
  constructor
  · intro l hl
    rcases hpc with ⟨rfl, -⟩ | h
    · cases hl
      rw [hobs, polled_append, hd.order _ hwait]
      simp [polled]
    · rw [h] at hl; cases hl
  · intro hw x hx
    rw [hobs] at hx
    rcases List.mem_append.1 hx with hx | hx
    · exact hd.returned hne x hx
    · rw [List.mem_singleton.1 hx]; exact hr hw
  · intro hw
    rw [hobs, List.countP_append, ← hcount]
    cases ha with
    | raised => exact absurd rfl (hr hw)
    | rejected _ _ _ _ _ _ hq => exact hq
    | duplicate _ _ _ _ _ hq => exact hq
    | accepted _ _ _ _ _ hq => exact hq
  · intro m' e he
    rw [hobs] at he
    rcases List.mem_append.1 he with he | he
    · exact hacc m' e he
    · simp only [List.mem_singleton, Prod.mk.injEq] at he
      obtain ⟨rfl, rfl⟩ := he
      cases ha with
      | accepted _ _ _ hb => left; rw [hb]; simp
  · intro m' e he
    rw [hobs] at he
    rcases List.mem_append.1 he with he | he
    · obtain ⟨k, m₁, e₁, hk, h₁, hk₁⟩ := hd.duplicate m' e he
      exact ⟨k, m₁, e₁, hk, hmem _ h₁, hk₁⟩
    · simp only [List.mem_singleton, Prod.mk.injEq] at he
      obtain ⟨rfl, rfl⟩ := he
      cases ha with
      | duplicate _ _ hdup =>
        -- the deduplicator answered from a key it still tracks
        obtain ⟨k, hk, hks⟩ := (Deduplicator.isDuplicate_fst _ _ _).1 hdup
        obtain ⟨m₁, e₁, h₁, hk₁⟩ := hd.seen k hks
        exact ⟨k, m₁, e₁, hk, hmem _ h₁, hk₁⟩
  · intro k hk
    have hold : k ∈ s.processor.deduplicator.seen.keys →
        ∃ m' e, (m', Outcome.accepted e) ∈ Consumer.handled (tr ++ [.handled m out]) ∧ c.stages.key e = some k := by
      intro h
      obtain ⟨m₁, e₁, h₁, hk₁⟩ := hd.seen k h
      exact ⟨m₁, e₁, hmem _ h₁, hk₁⟩
    cases ha with
    | raised _ hq => rw [hq] at hk; exact hold hk
    | rejected _ _ _ _ _ hq => rw [hq] at hk; exact hold hk
    | duplicate e _ hdup _ hq =>
      obtain ⟨k', hk', hks⟩ := (Deduplicator.isDuplicate_fst _ _ _).1 hdup
      rw [hq, Deduplicator.isDuplicate_seen, hk'] at hk
      rcases SeenKeys.mem_add hk with h | rfl
      · exact hold h
      · exact hold hks
    | accepted e _ _ _ hq =>
      rw [hq, Deduplicator.isDuplicate_seen] at hk
      cases hke : c.stages.key e with
      | none => rw [hke] at hk; exact hold hk
      | some k' =>
        rw [hke] at hk
        rcases SeenKeys.mem_add hk with h | rfl
        · exact hold h
        · exact ⟨m, e, by rw [hobs]; simp, hke⟩
  · exact fun h => absurd h hnc

theorem delivery_step {s s' : Session E K σ} {x : Choice τ F} {o : List (Obs E)} {tr : List (Obs E)}
    (hd : Delivery c s tr) (h : c.step s x = some (s', o)) : Delivery c s' (tr ++ o) := by
  cases c.step_effect h with
  | idle _ _ hi => rw [List.append_nil]; exact hd.idle hi
  | tombstone _ _ _ => rw [List.append_nil]; exact ⟨hd.1, hd.2, hd.3, hd.4, hd.5, hd.6, hd.7⟩
  | delivered _ messages m hs _ => exact hd.delivered hs m
  | handled env m rest r q pc hs he hpc => exact hd.handled hs he hpc
  | flushed env r q pc he hpc => exact hd.flushed (flush_effect_of he) hpc
  | committed _ a _ hs hp _ _ hpc => exact hd.committed hs hp hpc

end

/-! ## Failing flushes -/

/-- After a flush has failed the loop is over; a failed flush changed nothing of the buffer. -/
structure Failures (b : StorageBackend E F σ) (s : Session E K σ) (tr : List (Obs E)) : Prop where
  ended : ∀ before after, .flushFailed before after ∈ tr → s.pc.waiting = none
  buffer : ∀ before after, .flushFailed before after ∈ tr → after = before
  uncommitted : tr.Pairwise fun x y => ∀ before after a, x = .flushFailed before after → y ≠ .committed a
  persisted : ∀ batch, .published batch ∈ tr → Persisted b batch

theorem Failures.append {b : StorageBackend E F σ} {s s' : Session E K σ} {tr o : List (Obs E)} (hf : Failures b s tr)
    (hlen : o.length ≤ 1) (hover : s.pc.waiting = none → s'.pc.waiting = none)
    (hnew : ∀ before after, .flushFailed before after ∈ o → after = before ∧ s'.pc.waiting = none)
    (hcommit : ∀ a, .committed a ∈ o → s.pc.waiting ≠ none)
    (hpub : ∀ batch, .published batch ∈ o → Persisted b batch) : Failures b s' (tr ++ o) := by
  constructor
  · intro before after h
    rcases List.mem_append.1 h with h | h
    · exact hover (hf.ended before after h)
    · exact (hnew before after h).2
  · intro before after h
    rcases List.mem_append.1 h with h | h
    · exact hf.buffer before after h
    · exact (hnew before after h).1
  · refine List.pairwise_append.2 ⟨hf.uncommitted, ?_, ?_⟩
    · match o, hlen with
      | [], _ => exact .nil
      | [_], _ => exact List.pairwise_singleton _ _
    · rintro x hx y hy before after a rfl rfl
      exact hcommit a hy (hf.ended before after hx)
  · intro batch h
    rcases List.mem_append.1 h with h | h
    · exact hf.persisted batch h
    · exact hpub batch h

theorem failures_flush {b : StorageBackend E F σ} {env : FlushEnv F} {p q : StreamProcessor E K σ}
    {r : Except Exn Nat} (h : FlushEffect b env p r q) :
    (∀ before after, .flushFailed before after ∈ flushObs p.buffer (r, q) → after = before ∧ ∃ exn, r = .error exn) ∧
    ∀ batch, .published batch ∈ flushObs p.buffer (r, q) → Persisted b batch := by
  cases h with
  | empty hb => simp [flushObs, hb]
  | writeFailed exn hb hw => simp [flushObs]
  | flushFailed exn s hb hw hfl => simp [flushObs]
  | published s hb hw hfl =>
    simp only [flushObs, hb, if_false, List.mem_singleton, reduceCtorEq, false_implies, implies_true, true_and,
      Obs.published.injEq, forall_eq]
    exact ⟨env.writeFs, env.flushFs, p.store, s, _, hw, hfl⟩

theorem failures_step [DecidableEq K] {s s' : Session E K σ} {x : Choice τ F} {o : List (Obs E)} {tr : List (Obs E)}
    (hf : Failures c.backend s tr) (h : c.step s x = some (s', o)) : Failures c.backend s' (tr ++ o) := by
  cases c.step_effect h with
  | idle _ _ hi =>
    obtain ⟨-, -, -, hpc⟩ := hi
    refine hf.append (by simp) (fun hn => ?_) (by simp) (by simp) (by simp)
    rcases hpc with h | h | ⟨-, h⟩
    · rw [h, hn]
    · exact h
    · rw [h, hn]
  | tombstone _ _ _ => exact hf.append (by simp) id (by simp) (by simp) (by simp)
  | delivered _ messages m hs _ =>
    exact hf.append (by simp) (fun hn => by rw [hs] at hn; cases hn) (by simp) (by simp) (by simp)
  | handled env m rest r q pc hs he hpc =>
    exact hf.append (by simp) (fun hn => by rw [hs] at hn; cases hn) (by simp) (by simp) (by simp)
  | flushed env r q pc he hpc =>
    obtain ⟨h1, h2⟩ := failures_flush (flush_effect_of he)
    refine hf.append ?_ (fun hn => ?_) (fun before after hm => ?_) ?_ h2
    · unfold flushObs; split
      · simp
      · split <;> simp
    · rcases hpc with ⟨-, hs, -⟩ | h
      · rw [hs] at hn; cases hn
      · exact h
    · obtain ⟨ha, exn, hr⟩ := h1 before after hm
      refine ⟨ha, hpc.resolve_left ?_⟩
      rintro ⟨-, -, n, hn⟩
      rw [hr] at hn; cases hn
    · intro a ha
      unfold flushObs at ha
      split at ha
      · simp at ha
      · split at ha <;> simp at ha
  | committed _ a _ hs hp _ _ hpc =>
    exact hf.append (by simp) (fun hn => by rw [hs] at hn; cases hn) (by simp)
      (fun _ _ hn => by rw [hs] at hn; cases hn) (by simp)

/-! ## Commit safety -/

/-- What holds of the messages polled before a commit. -/
structure CommitSafe (c : Consumer R E K τ F σ) (tr : List (Obs E)) : Prop where
  handled : polled tr = (handled tr).map (·.1)
  settled : ∀ m outcome, (m, outcome) ∈ Consumer.handled tr → match outcome with
    | .rejected => True
    | .accepted e => Published tr e
    | .duplicate e => ∃ k e', c.stages.key e = some k ∧ c.stages.key e' = some k ∧ Published tr e'
    | .raised => False
  persisted : ∀ batch, .published batch ∈ tr → Persisted c.backend batch

theorem Delivery.commitSafe {s : Session E K σ} {tr : List (Obs E)} (hd : Delivery c s tr)
    (hf : Failures c.backend s tr) (hs : s.pc = .committing) : CommitSafe c tr := by
  have hwait : s.pc.waiting = some [] := by rw [hs]; rfl
  have hpub : ∀ m e, (m, .accepted e) ∈ Consumer.handled tr → Published tr e := by
    intro m e he
    refine (hd.accepted m e he).resolve_left ?_
    rw [hd.empty hs]
    exact List.not_mem_nil
  refine ⟨by simpa using hd.order _ hwait, ?_, hf.persisted⟩
  intro m outcome hm
  cases outcome with
  | rejected => trivial
  | accepted e => exact hpub m e hm
  | duplicate e =>
    obtain ⟨k, m', e', hk, he', hk'⟩ := hd.duplicate m e hm
    exact ⟨k, e', hk, hk', hpub m' e' he'⟩
  | raised => exact hd.returned (by rw [hwait]; simp) _ hm rfl

/-- In every run of the consume loop from a fresh processor: when `commit` is reached, every
message polled was handled, and rejected, published or a duplicate of a published event; a
failed flush left the buffer as it was, and no commit follows it. -/
theorem commit_safety [DecidableEq K] (c : Consumer R E K τ F σ) (monotonic : ℚ) (maxSize : Nat) (hmax : 1 ≤ maxSize)
    (w : LiveWindow E) (store : σ) (offset : Nat) (choices : List (Choice τ F)) (s : Session E K σ)
    (tr : List (Obs E))
    (h : runs c.step (c.start (.new monotonic { seen := .empty maxSize hmax } w store) offset) choices = some (s, tr)) :
    (s.pc = .committing →
      CommitSafe c tr ∧ s.processor.stats.rejected = (handled tr).countP (·.2.isRejected)) ∧
    (∀ before after, .flushFailed before after ∈ tr → after = before) ∧
    tr.Pairwise (fun x y => ∀ before after a, x = .flushFailed before after → y ≠ .committed a) ∧
    ∀ (env : FlushEnv F) (p : StreamProcessor E K σ), p.buffer ≠ [] →
      let written := c.backend.write env.writeFs p.store p.buffer (runId env.pid env.time (p.flushSequence + 1))
      (written.1 ≠ .ok () ∨ (c.backend.flush env.flushFs written.2).1 ≠ .ok ()) →
      ∃ exn, (flush c.backend env p).1 = .error exn ∧ (flush c.backend env p).2.buffer = p.buffer := by
  have hinv : Delivery c s tr ∧ Failures c.backend s tr := by
    refine runs_inv (fun s tr => Delivery c s tr ∧ Failures c.backend s tr) ?_ ?_ h
    · intro s x s' o tr ⟨hd, hf⟩ hs
      exact ⟨delivery_step hd hs, failures_step hf hs⟩
    · exact ⟨delivery_start rfl rfl offset, by simp, by simp, .nil, by simp⟩
  obtain ⟨hd, hf⟩ := hinv
  refine ⟨fun hs => ⟨hd.commitSafe hf hs, hd.counted (by rw [hs]; simp [Pc.waiting])⟩, hf.buffer, hf.uncommitted, ?_⟩
  intro env p hb written hraise
  have he := flush_effect c.backend env p
  generalize flush c.backend env p = r at he ⊢
  obtain ⟨r, q⟩ := r
  cases he with
  | empty he => exact absurd he hb
  | writeFailed exn => exact ⟨exn, rfl, rfl⟩
  | flushFailed exn => exact ⟨exn, rfl, rfl⟩
  | published s' _ hw hfl =>
    exfalso
    rcases hraise with h | h
    · exact h (by simp only [written, hw])
    · exact h (by simp only [written, hw, hfl])

/-- A topic of a message, a tombstone and a text that does not parse. -/
def echoConsumer : Consumer Unit String String Unit (Option Exn) (MemoryStore String) :=
  ⟨echoStages, memoryBackend String, 10, some 1, [some "a", none, some ""]⟩

/-- The three are polled, the texts handled and the batch flushed: the commit is next. -/
theorem commit_safety_batch :
    (∃ s tr, runs echoConsumer.step (echoConsumer.start echoProcessor 0)
      [.poll .delivered, .poll .error, .poll .delivered, .poll .delivered, .poll .timeout,
        .handle ⟨(), none⟩, .handle ⟨(), none⟩, .flush ⟨7, 0, 0, none, none⟩] = some (s, tr) ∧
      CommitSafe echoConsumer tr) ∧
    ∃ exn, (flush (memoryBackend String) ⟨7, 0, 0, some ⟨.osError, "full"⟩, none⟩
      { echoProcessor with buffer := ["a"] }).1 = .error exn := by
  have h := commit_safety echoConsumer 0 1000 (by omega) ⟨100, []⟩ {} 0
    [.poll .delivered, .poll .error, .poll .delivered, .poll .delivered, .poll .timeout,
      .handle ⟨(), none⟩, .handle ⟨(), none⟩, .flush ⟨7, 0, 0, none, none⟩] _ _ rfl
  refine ⟨⟨_, _, rfl, (h.1 rfl).1⟩, ?_⟩
  obtain ⟨exn, he, -⟩ := h.2.2.2 ⟨7, 0, 0, some ⟨.osError, "full"⟩, none⟩ { echoProcessor with buffer := ["a"] }
    (by simp) (.inl (by simp [echoConsumer, memoryBackend]))
  exact ⟨exn, he⟩

end LogAnalytics.Stream.Consumer
