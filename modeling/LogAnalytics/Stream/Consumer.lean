import LogAnalytics.Lib.Runs
import LogAnalytics.Stream.Effects
/-!
# The consume loop

`consume` with its `poll_batch` and `commit`, cut into the steps between which other things
happen: the broker answers a poll, a store call returns or raises, a stop is requested, the
process dies. A `Choice` says what happens next. The topic is the broker's log; `none` is a
tombstone. A message's value is the text `poll_batch` decodes it to.
-/
open LogAnalytics.Stream.StreamProcessor

namespace LogAnalytics.Stream

variable {R E K τ F σ : Type}

/-- What `consume` is run with. -/
structure Consumer (R E K τ F σ : Type) where
  stages : Stages R E K τ
  backend : StorageBackend E F σ
  maxBatch : Nat
  maxBatches : Option Nat
  topic : List (Option String)

/-- Where `consume` stands. -/
inductive Pc where
  /-- In `poll_batch`, with the messages gathered. -/
  | polling (messages : List String)
  /-- In `process_batch`, with the messages left to handle; at the end it flushes. -/
  | handling (rest : List String)
  | committing
  /-- In the `finally` clause; the exception on its way out, if any. -/
  | draining (raised : Option Exn)
  | closing (raised : Option Exn)
  | returned (raised : Option Exn)
  deriving DecidableEq

/-- The messages polled and not yet handled, while the batch is still going to be acknowledged. -/
def Pc.waiting : Pc → Option (List String)
  | .polling messages => some messages
  | .handling rest => some rest
  | .committing => some []
  | _ => none

structure Session (E K σ : Type) where
  pc : Pc
  processor : StreamProcessor E K σ
  /-- The next offset the broker delivers. -/
  position : Nat
  committed : Nat
  batches : Nat := 0
  stopping : Bool := false

inductive PollOutcome where
  | timeout | error | delivered
  | raised (exn : Exn)

/-- What happens next. -/
inductive Choice (τ F : Type) where
  | stop
  | poll (outcome : PollOutcome)
  | tick
  | handle (env : HandleEnv τ)
  | flush (env : FlushEnv F)
  | commit (acknowledged : Bool)

/-- What became of a handled message. -/
inductive Outcome (E : Type) where
  | rejected
  | accepted (event : E)
  | duplicate (event : E)
  | raised

def Outcome.isRejected {E : Type} : Outcome E → Bool
  | .rejected => true
  | _ => false

inductive Obs (E : Type) where
  | polled (m : String)
  | handled (m : String) (outcome : Outcome E)
  /-- `store.write` and `store.flush` both returned for this batch. -/
  | published (batch : List E)
  /-- A flush raised; the buffer before and after it. -/
  | flushFailed (before after : List E)
  | committed (acknowledged : Bool)
  /-- A new process took over; no step of `consume` itself shows this. -/
  | restarted

namespace Consumer

variable (c : Consumer R E K τ F σ)

/-- The test of the `while` loop. -/
def loopHead (s : Session E K σ) : Session E K σ :=
  if c.maxBatches.all (s.batches < ·) then { s with pc := .polling [] } else { s with pc := .draining none }

/-- `poll_batch` returned `messages`. -/
def gathered (s : Session E K σ) (messages : List String) : Session E K σ :=
  if messages = [] then
    if s.stopping then { s with pc := .draining none } else c.loopHead s
  else { s with pc := .handling messages }

def polls (s : Session E K σ) (messages : List String) : Bool :=
  messages.length < c.maxBatch && !s.stopping

/-- What a `handle` call made of the message. -/
def outcome (now : τ) (m : String) : Except Exn (Option E) → Outcome E
  | .error _ => .raised
  | .ok (some e) => .accepted e
  | .ok none =>
    match c.stages.verdict now (.text m) with
    | .valid e => .duplicate e
    | _ => .rejected

def flushObs (before : List E) : Except Exn Nat × StreamProcessor E K σ → List (Obs E)
  | (.error _, q) => [.flushFailed before q.buffer]
  | (.ok _, _) => if before = [] then [] else [.published before]

variable [DecidableEq K]

def stepPoll (s : Session E K σ) (messages : List String) : PollOutcome → Option (Session E K σ × List (Obs E))
  | .timeout => some (c.gathered s messages, [])
  | .error => some (s, [])
  | .raised exn => some ({ s with pc := .draining (some exn) }, [])
  | .delivered =>
    match c.topic[s.position]? with
    | none => none
    | some none => some ({ s with position := s.position + 1 }, [])
    | some (some m) =>
      some ({ s with position := s.position + 1, pc := .polling (messages ++ [m]) }, [.polled m])

def stepHandle (s : Session E K σ) (m : String) (rest : List String) (env : HandleEnv τ) :
    Session E K σ × List (Obs E) :=
  let (r, p) := StreamProcessor.handle c.stages env.now env.dlqRaises s.processor (.text m)
  let pc := match r with
    | .error exn => .draining (some exn)
    | .ok _ => .handling rest
  ({ s with pc := pc, processor := p }, [.handled m (c.outcome env.now m r)])

/-- `processor.flush()`; `next` is where the code goes from its result. -/
def stepFlush (s : Session E K σ) (next : Except Exn Nat → Pc) (env : FlushEnv F) :
    Session E K σ × List (Obs E) :=
  let r := StreamProcessor.flush c.backend env s.processor
  ({ s with pc := next r.1, processor := r.2 }, flushObs s.processor.buffer r)

/-- From `process_batch`'s flush to the commit, or to the `finally` clause. -/
def afterBatch : Except Exn Nat → Pc
  | .error exn => .draining (some exn)
  | .ok _ => .committing

/-- From the flush of the `finally` clause; when it raises, `source.close()` is not reached. -/
def afterDrain (raised : Option Exn) : Except Exn Nat → Pc
  | .error exn => .returned (some exn)
  | .ok _ => .closing raised

/-- One step of `consume`; `none` when the choice is not possible there. -/
def step (s : Session E K σ) : Choice τ F → Option (Session E K σ × List (Obs E))
  | .stop => some ({ s with stopping := true }, [])
  | .poll o =>
    match s.pc with
    | .polling messages => if c.polls s messages then c.stepPoll s messages o else none
    | _ => none
  | .tick =>
    match s.pc with
    | .polling messages => if c.polls s messages then none else some (c.gathered s messages, [])
    | .closing raised => some ({ s with pc := .returned raised, stopping := true }, [])
    | _ => none
  | .handle env =>
    match s.pc with
    | .handling (m :: rest) => some (c.stepHandle s m rest env)
    | _ => none
  | .flush env =>
    match s.pc with
    | .handling [] => some (c.stepFlush s afterBatch env)
    | .draining raised => some (c.stepFlush s (afterDrain raised) env)
    | _ => none
  | .commit acknowledged =>
    match s.pc with
    | .committing =>
      let committed := if acknowledged then s.position else s.committed
      some (c.loopHead { s with committed := committed, batches := s.batches + 1 }, [.committed acknowledged])
    | _ => none

/-- `consume` entered with the group's offset at `offset`. -/
def start (p : StreamProcessor E K σ) (offset : Nat) : Session E K σ :=
  c.loopHead { pc := .draining none, processor := p, position := offset, committed := offset }

/-! ## What one step can do -/

/-- The states `poll_batch` and the loop test move between hand nothing over: the batch in
progress stays, or is given up with the loop. -/
def Idle (s s' : Session E K σ) : Prop :=
  s'.processor = s.processor ∧ s'.position = s.position ∧ s'.committed = s.committed ∧
  (s'.pc = s.pc ∨ s'.pc.waiting = none ∨ (s'.pc ≠ .committing ∧ s'.pc.waiting = s.pc.waiting))

/-- The next session and what the step shows, by the kind of step. -/
inductive StepEffect (s : Session E K σ) : Choice τ F → Session E K σ → List (Obs E) → Prop
  | idle (x : Choice τ F) (s' : Session E K σ) : Idle s s' → StepEffect s x s' []
  | tombstone (x : Choice τ F) : s.pc.waiting ≠ none → c.topic[s.position]? = some none →
      StepEffect s x { s with position := s.position + 1 } []
  | delivered (x : Choice τ F) (messages : List String) (m : String) : s.pc = .polling messages →
      c.topic[s.position]? = some (some m) →
      StepEffect s x { s with position := s.position + 1, pc := .polling (messages ++ [m]) } [.polled m]
  | handled (env : HandleEnv τ) (m : String) (rest : List String) (r : Except Exn (Option E))
      (q : StreamProcessor E K σ) (pc : Pc) : s.pc = .handling (m :: rest) →
      HandleEffect c.stages env.now (.text m) s.processor r q →
      (pc = .handling rest ∧ (∀ exn, r ≠ .error exn) ∨ pc.waiting = none) →
      StepEffect s (.handle env) { s with pc := pc, processor := q } [.handled m (c.outcome env.now m r)]
  | flushed (env : FlushEnv F) (r : Except Exn Nat) (q : StreamProcessor E K σ) (pc : Pc) :
      StreamProcessor.flush c.backend env s.processor = (r, q) →
      (pc = .committing ∧ s.pc = .handling [] ∧ (∃ n, r = .ok n) ∨ pc.waiting = none) →
      StepEffect s (.flush env) { s with pc := pc, processor := q } (flushObs s.processor.buffer (r, q))
  | committed (x : Choice τ F) (acknowledged : Bool) (s' : Session E K σ) : s.pc = .committing →
      s'.processor = s.processor → s'.position = s.position →
      s'.committed = (if acknowledged then s.position else s.committed) →
      (s'.pc = .polling [] ∨ s'.pc = .draining none) → StepEffect s x s' [.committed acknowledged]

/-- What a `handle` call that ended in the outcome changed of the processor. -/
inductive HandledAs (now : τ) (m : String) (p q : StreamProcessor E K σ) : Outcome E → Prop
  | raised : q.buffer = p.buffer → q.deduplicator = p.deduplicator → HandledAs now m p q .raised
  | rejected (reason : RejectReason) (stage detail : String) :
      c.stages.verdict now (.text m) = .rejected reason stage detail → q.buffer = p.buffer →
      q.deduplicator = p.deduplicator → q.stats.rejected = p.stats.rejected + 1 → HandledAs now m p q .rejected
  | duplicate (e : E) : c.stages.verdict now (.text m) = .valid e →
      (p.deduplicator.isDuplicate c.stages.key e).1 = true → q.buffer = p.buffer →
      q.deduplicator = (p.deduplicator.isDuplicate c.stages.key e).2 → q.stats.rejected = p.stats.rejected →
      HandledAs now m p q (.duplicate e)
  | accepted (e : E) : c.stages.verdict now (.text m) = .valid e →
      (p.deduplicator.isDuplicate c.stages.key e).1 = false → q.buffer = p.buffer ++ [e] →
      q.deduplicator = (p.deduplicator.isDuplicate c.stages.key e).2 → q.stats.rejected = p.stats.rejected →
      HandledAs now m p q (.accepted e)

theorem handledAs {now : τ} {m : String} {p q : StreamProcessor E K σ} {r : Except Exn (Option E)}
    (h : HandleEffect c.stages now (.text m) p r q) :
    c.HandledAs now m p q (c.outcome now m r) ∧ q.store = p.store := by
  cases h with
  | rejected _ reason stage detail parsed dlq q hv hr hq =>
    subst hq
    refine ⟨?_, rfl⟩
    -- filing the rejection may have raised
    rcases r with exn | _ | e
    · exact .raised rfl rfl
    · simp only [outcome, hv]
      exact .rejected reason stage detail hv rfl rfl rfl
    · exact absurd rfl (hr e)
  | raised exn hv => exact ⟨.raised rfl rfl, rfl⟩
  | duplicate e hv hd =>
    refine ⟨?_, rfl⟩
    simp only [outcome, hv]
    exact .duplicate e hv hd rfl rfl rfl
  | accepted e hv hd => exact ⟨.accepted e hv hd rfl rfl rfl, rfl⟩

omit [DecidableEq K] in
theorem outcome_ne_raised (now : τ) (m : String) {r : Except Exn (Option E)} (h : ∀ exn, r ≠ .error exn) :
    c.outcome now m r ≠ .raised := by
  rcases r with exn | _ | e
  · exact absurd rfl (h exn)
  · unfold outcome; dsimp only; split <;> simp
  · simp [outcome]

omit [DecidableEq K] in
/-- The loop test keeps the session and goes on polling or leaves the loop. -/
theorem loopHead_spec (s : Session E K σ) :
    (c.loopHead s).processor = s.processor ∧ (c.loopHead s).position = s.position ∧
    (c.loopHead s).committed = s.committed ∧
    ((c.loopHead s).pc = .polling [] ∨ (c.loopHead s).pc = .draining none) := by
  unfold loopHead
  split <;> simp

omit [DecidableEq K] in
theorem start_spec (p : StreamProcessor E K σ) (offset : Nat) :
    (c.start p offset).processor = p ∧ (c.start p offset).position = offset ∧
    (c.start p offset).committed = offset ∧
    ((c.start p offset).pc = .polling [] ∨ (c.start p offset).pc = .draining none) :=
  c.loopHead_spec _

omit [DecidableEq K] in
theorem gathered_idle {s : Session E K σ} {messages : List String} (h : s.pc = .polling messages) :
    Idle s (c.gathered s messages) := by
  unfold gathered
  split
  · next he =>
    split
    · exact ⟨rfl, rfl, rfl, .inr (.inl rfl)⟩
    · obtain ⟨h1, h2, h3, h4 | h4⟩ := c.loopHead_spec s
      · exact ⟨h1, h2, h3, .inl (by rw [h4, h, he])⟩
      · exact ⟨h1, h2, h3, .inr (.inl (by rw [h4]; rfl))⟩
  · exact ⟨rfl, rfl, rfl, .inr (.inr ⟨by simp, by rw [h]; rfl⟩)⟩

theorem stepFlush_effect (s : Session E K σ) (next : Except Exn Nat → Pc) (env : FlushEnv F)
    (hn : ∀ r, next r = .committing ∧ s.pc = .handling [] ∧ (∃ n, r = .ok n) ∨ (next r).waiting = none) :
    c.StepEffect s (.flush env) (c.stepFlush s next env).1 (c.stepFlush s next env).2 :=
  .flushed env _ _ _ rfl (hn _)

theorem step_effect {s s' : Session E K σ} {x : Choice τ F} {o : List (Obs E)} (h : c.step s x = some (s', o)) :
    c.StepEffect s x s' o := by
  cases x with
  | stop =>
    simp only [step, Option.some.injEq, Prod.mk.injEq] at h
    obtain ⟨rfl, rfl⟩ := h
    exact .idle _ _ ⟨rfl, rfl, rfl, .inl rfl⟩
  | poll out =>
    simp only [step] at h
    split at h
    · next messages hpc =>
      split at h
      · cases out with
        | timeout =>
          simp only [stepPoll, Option.some.injEq, Prod.mk.injEq] at h
          obtain ⟨rfl, rfl⟩ := h
          exact .idle _ _ (c.gathered_idle hpc)
        | error =>
          simp only [stepPoll, Option.some.injEq, Prod.mk.injEq] at h
          obtain ⟨rfl, rfl⟩ := h
          exact .idle _ _ ⟨rfl, rfl, rfl, .inl rfl⟩
        | raised exn =>
          simp only [stepPoll, Option.some.injEq, Prod.mk.injEq] at h
          obtain ⟨rfl, rfl⟩ := h
          exact .idle _ _ ⟨rfl, rfl, rfl, .inr (.inl rfl)⟩
        | delivered =>
          simp only [stepPoll] at h
          split at h
          · cases h
          · next ht =>
            simp only [Option.some.injEq, Prod.mk.injEq] at h
            obtain ⟨rfl, rfl⟩ := h
            exact .tombstone _ (by rw [hpc]; simp [Pc.waiting]) ht
          · next m ht =>
            simp only [Option.some.injEq, Prod.mk.injEq] at h
            obtain ⟨rfl, rfl⟩ := h
            exact .delivered _ messages m hpc ht
      · cases h
    · cases h
  | tick =>
    simp only [step] at h
    split at h
    · next messages hpc =>
      split at h
      · cases h
      · simp only [Option.some.injEq, Prod.mk.injEq] at h
        obtain ⟨rfl, rfl⟩ := h
        exact .idle _ _ (c.gathered_idle hpc)
    · simp only [Option.some.injEq, Prod.mk.injEq] at h
      obtain ⟨rfl, rfl⟩ := h
      exact .idle _ _ ⟨rfl, rfl, rfl, .inr (.inl rfl)⟩
    · cases h
  | handle env =>
    simp only [step] at h
    split at h
    · next m rest hpc =>
      simp only [stepHandle, Option.some.injEq, Prod.mk.injEq] at h
      obtain ⟨rfl, rfl⟩ := h
      refine .handled env m rest _ _ _ hpc (handle_effect c.stages env.now env.dlqRaises s.processor (.text m)) ?_
      cases (StreamProcessor.handle c.stages env.now env.dlqRaises s.processor (.text m)).1 with
      | error exn => exact .inr rfl
      | ok e => exact .inl ⟨rfl, by simp⟩
    · cases h
  | flush env =>
    simp only [step] at h
    split at h
    · next hpc =>
      simp only [Option.some.injEq] at h
      have he := c.stepFlush_effect s afterBatch env fun r => by
        cases r with
        | error exn => exact .inr rfl
        | ok n => exact .inl ⟨rfl, hpc, n, rfl⟩
      rw [h] at he
      exact he
    · next raised hpc =>
      simp only [Option.some.injEq] at h
      have he := c.stepFlush_effect s (afterDrain raised) env fun r => by cases r <;> exact .inr rfl
      rw [h] at he
      exact he
    · cases h
  | commit acknowledged =>
    simp only [step] at h
    split at h
    · next hpc =>
      simp only [Option.some.injEq, Prod.mk.injEq] at h
      obtain ⟨rfl, rfl⟩ := h
      obtain ⟨h1, h2, h3, h4⟩ := c.loopHead_spec
        { s with committed := if acknowledged then s.position else s.committed, batches := s.batches + 1 }
      exact .committed _ acknowledged _ hpc h1 h2 h3 h4
    · cases h

end Consumer

end LogAnalytics.Stream
