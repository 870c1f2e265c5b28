import LogAnalytics.Stream.Processor
/-!
# What one call of the processor can do

`handle` and `flush` are read once, here: `handle_effect` and `flush_effect` give the state
after a call, case by case. No later proof unfolds them.
-/

namespace LogAnalytics.Stream

variable {R E K τ F σ : Type}

/-- What the stages make of a message, before deduplication. -/
inductive Verdict (E : Type) where
  | rejected (reason : RejectReason) (stage detail : String)
  | valid (event : E)
  | raised (exn : Exn)

namespace Stages

/-- Parse, transform, validate. -/
def verdict (st : Stages R E K τ) (now : τ) (m : Message R) : Verdict E :=
  match st.parseMessage now m with
  | .error exn => .rejected .unparseable "parse" exn.msg
  | .ok event =>
    match st.transform event with
    | .error exn => .rejected .transformError "transform" exn.msg
    | .ok event =>
      match st.validate now event with
      | .error exn => .raised exn
      | .ok outcome =>
        if outcome.valid = false then .rejected outcome.reason "validate" outcome.detail else .valid event

end Stages

namespace StreamProcessor

/-- The result and the state after `handle`. -/
inductive HandleEffect [DecidableEq K] (st : Stages R E K τ) (now : τ) (m : Message R) (p : StreamProcessor E K σ) :
    Except Exn (Option E) → StreamProcessor E K σ → Prop
  | rejected (r : Except Exn (Option E)) (reason : RejectReason) (stage detail : String) (parsed : Nat)
      (dlq : List DeadLetter) (q : StreamProcessor E K σ) :
      st.verdict now m = .rejected reason stage detail → (∀ e, r ≠ .ok (some e)) →
      q = { p with
        stats := { p.stats with
          messages := p.stats.messages + 1
          parsed := parsed
          rejected := p.stats.rejected + 1 }
        dlq := dlq } →
      HandleEffect st now m p r q
  | raised (exn : Exn) : st.verdict now m = .raised exn →
      HandleEffect st now m p (.error exn) { p with
        stats := { p.stats with messages := p.stats.messages + 1, parsed := p.stats.parsed + 1 } }
  | duplicate (e : E) : st.verdict now m = .valid e → (p.deduplicator.isDuplicate st.key e).1 = true →
      HandleEffect st now m p (.ok none) { p with
        stats := { p.stats with
          messages := p.stats.messages + 1
          parsed := p.stats.parsed + 1
          valid := p.stats.valid + 1
          duplicates := p.stats.duplicates + 1 }
        deduplicator := (p.deduplicator.isDuplicate st.key e).2 }
  | accepted (e : E) : st.verdict now m = .valid e → (p.deduplicator.isDuplicate st.key e).1 = false →
      HandleEffect st now m p (.ok (some e)) { p with
        stats := { p.stats with
          messages := p.stats.messages + 1
          parsed := p.stats.parsed + 1
          valid := p.stats.valid + 1 }
        deduplicator := (p.deduplicator.isDuplicate st.key e).2
        buffer := p.buffer ++ [e]
        window := p.window.add e }

theorem reject_effect (st : Stages R E K τ) (dlqRaises : Option Exn) (p : StreamProcessor E K σ) (m : Message R)
    (reason : RejectReason) (stage detail : String) :
    ∃ dlq, (reject st dlqRaises p m reason stage detail).2 =
      { p with stats := { p.stats with rejected := p.stats.rejected + 1 }, dlq := dlq } := by
  cases dlqRaises with
  | none => exact ⟨_, rfl⟩
  | some exn => exact ⟨p.dlq, rfl⟩

theorem map_none_ne {α : Type} (r : Except Exn α) (e : E) : r.map (fun _ => (none : Option E)) ≠ .ok (some e) := by
  cases r <;> simp [Except.map]

theorem handle_effect [DecidableEq K] (st : Stages R E K τ) (now : τ) (dlqRaises : Option Exn)
    (p : StreamProcessor E K σ) (m : Message R) :
    HandleEffect st now m p (handle st now dlqRaises p m).1 (handle st now dlqRaises p m).2 := by
  unfold handle
  cases hp : st.parseMessage now m with
  | error exn =>
    have hv : st.verdict now m = .rejected .unparseable "parse" exn.msg := by simp [Stages.verdict, hp]
    obtain ⟨dlq, hq⟩ := reject_effect st dlqRaises
      { p with stats := { p.stats with messages := p.stats.messages + 1 } } m .unparseable "parse" exn.msg
    exact .rejected _ _ _ _ p.stats.parsed dlq _ hv (map_none_ne _) hq
  | ok event =>
    dsimp only
    cases ht : st.transform event with
    | error exn =>
      have hv : st.verdict now m = .rejected .transformError "transform" exn.msg := by simp [Stages.verdict, hp, ht]
      obtain ⟨dlq, hq⟩ := reject_effect st dlqRaises
        { p with stats := { p.stats with messages := p.stats.messages + 1, parsed := p.stats.parsed + 1 } }
        m .transformError "transform" exn.msg
      exact .rejected _ _ _ _ (p.stats.parsed + 1) dlq _ hv (map_none_ne _) hq
    | ok event =>
      dsimp only
      cases hv : st.validate now event with
      | error exn => exact .raised exn (by simp [Stages.verdict, hp, ht, hv])
      | ok outcome =>
        dsimp only
        by_cases ho : outcome.valid = false
        · have hr : st.verdict now m = .rejected outcome.reason "validate" outcome.detail := by
            simp [Stages.verdict, hp, ht, hv, ho]
          obtain ⟨dlq, hq⟩ := reject_effect st dlqRaises
            { p with stats := { p.stats with messages := p.stats.messages + 1, parsed := p.stats.parsed + 1 } }
            m outcome.reason "validate" outcome.detail
          rw [if_pos ho]
          exact .rejected _ _ _ _ (p.stats.parsed + 1) dlq _ hr (map_none_ne _) hq
        · have hval : st.verdict now m = .valid event := by simp [Stages.verdict, hp, ht, hv, ho]
          rw [if_neg ho]
          cases hd : (p.deduplicator.isDuplicate st.key event).1 with
          | true => exact .duplicate event hval hd
          | false => exact .accepted event hval hd

/-- Handling a message leaves the store and the run ids alone. -/
theorem handle_store [DecidableEq K] {st : Stages R E K τ} {now : τ} {m : Message R} {p q : StreamProcessor E K σ}
    {r : Except Exn (Option E)} (h : HandleEffect st now m p r q) :
    q.store = p.store ∧ q.flushSequence = p.flushSequence := by
  cases h with
  | rejected _ _ _ _ _ _ _ _ _ hq => subst hq; exact ⟨rfl, rfl⟩
  | _ => exact ⟨rfl, rfl⟩

/-- The result and the state after `flush`. -/
inductive FlushEffect (b : StorageBackend E F σ) (env : FlushEnv F) (p : StreamProcessor E K σ) :
    Except Exn Nat → StreamProcessor E K σ → Prop
  | empty : p.buffer = [] →
      FlushEffect b env p (.ok 0) { p with stats := { p.stats with lastFlushAt := env.monotonic } }
  | writeFailed (exn : Exn) : p.buffer ≠ [] →
      (b.write env.writeFs p.store p.buffer (runId env.pid env.time (p.flushSequence + 1))).1 = .error exn →
      FlushEffect b env p (.error exn) { p with
        flushSequence := p.flushSequence + 1
        store := (b.write env.writeFs p.store p.buffer (runId env.pid env.time (p.flushSequence + 1))).2 }
  | flushFailed (exn : Exn) (s : σ) : p.buffer ≠ [] →
      b.write env.writeFs p.store p.buffer (runId env.pid env.time (p.flushSequence + 1)) = (.ok (), s) →
      (b.flush env.flushFs s).1 = .error exn →
      FlushEffect b env p (.error exn) { p with
        flushSequence := p.flushSequence + 1
        store := (b.flush env.flushFs s).2 }
  | published (s : σ) : p.buffer ≠ [] →
      b.write env.writeFs p.store p.buffer (runId env.pid env.time (p.flushSequence + 1)) = (.ok (), s) →
      (b.flush env.flushFs s).1 = .ok () →
      FlushEffect b env p (.ok p.buffer.length) { p with
        buffer := []
        flushSequence := p.flushSequence + 1
        store := (b.flush env.flushFs s).2
        stats := { p.stats with
          written := p.stats.written + p.buffer.length
          flushes := p.stats.flushes + 1
          lastFlushAt := env.monotonic } }

theorem flush_effect (b : StorageBackend E F σ) (env : FlushEnv F) (p : StreamProcessor E K σ) :
    FlushEffect b env p (flush b env p).1 (flush b env p).2 := by
  unfold flush
  by_cases hb : p.buffer = []
  · rw [if_pos (List.isEmpty_iff.2 hb)]
    exact .empty hb
  · rw [if_neg (fun h => hb (List.isEmpty_iff.1 h))]
    rcases hw : b.write env.writeFs p.store p.buffer (runId env.pid env.time (p.flushSequence + 1)) with ⟨_ | _, s⟩
    · have h : FlushEffect b env p _ _ := .writeFailed _ hb (congrArg (·.1) hw)
      rw [hw] at h
      simpa only [hw, List.append_nil] using h
    · simp only [hw, List.append_nil]
      rcases hf : b.flush env.flushFs s with ⟨_ | _, s'⟩
      · have h : FlushEffect b env p _ _ := .flushFailed _ s hb hw (congrArg (·.1) hf)
        rw [hf] at h
        simpa only [hf] using h
      · have h : FlushEffect b env p _ _ := .published s hb hw (congrArg (·.1) hf)
        rw [hf] at h
        simpa only [hf] using h

theorem flush_effect_of {b : StorageBackend E F σ} {env : FlushEnv F} {p q : StreamProcessor E K σ}
    {r : Except Exn Nat} (h : flush b env p = (r, q)) : FlushEffect b env p r q := by
  have he := flush_effect b env p
  rwa [h] at he

/-- A flush that raises leaves the buffer as it was, order included. -/
theorem flush_error_buffer {b : StorageBackend E F σ} {env : FlushEnv F} {p q : StreamProcessor E K σ} {exn : Exn}
    (h : FlushEffect b env p (.error exn) q) : q.buffer = p.buffer := by
  cases h <;> rfl

/-- A flush that returns leaves the buffer empty. -/
theorem flush_ok_buffer {b : StorageBackend E F σ} {env : FlushEnv F} {p q : StreamProcessor E K σ} {n : Nat}
    (h : FlushEffect b env p (.ok n) q) : q.buffer = [] := by
  cases h with
  | empty h => exact h
  | published => rfl

end StreamProcessor

/-! ## A small instance -/

/-- Messages that are their own events and their own keys; the empty text does not parse. -/
def echoStages : Stages Unit String String Unit where
  parse _ raw := if raw = "" then .error ⟨.parseError, "empty line"⟩ else .ok raw
  parseRecord := none
  jsonLineParser _ _ := .error ⟨.parseError, "no fields"⟩
  transform := .ok
  validate _ _ := .ok { valid := true }
  key := some
  maskText := id
  strOf _ := "{}"
  source := "topic"

/-- A store that stages a batch and publishes it whole; either call can be made to raise. -/
structure MemoryStore (E : Type) where
  staged : List E := []
  published : List E := []

def memoryBackend (E : Type) : StorageBackend E (Option Exn) (MemoryStore E) where
  write
    | some exn, s, _, _ => (.error exn, s)
    | none, s, batch, _ => (.ok (), { s with staged := batch })
  flush
    | some exn, s => (.error exn, { s with staged := [] })
    | none, s => (.ok (), { staged := [], published := s.published ++ s.staged })

/-- A processor of `echoStages` over an empty `MemoryStore`. -/
def echoProcessor : StreamProcessor String String (MemoryStore String) :=
  .new 0 { seen := .empty 1000 (by omega) } ⟨100, []⟩ {}

end LogAnalytics.Stream
