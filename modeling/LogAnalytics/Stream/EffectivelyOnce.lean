import Mathlib.Data.Multiset.Filter
import Mathlib.Algebra.Order.Group.Multiset
import LogAnalytics.Stream.CommitSafety
/-!
# Effectively-once storage

The consume loop with a process that can die at any step and be started again: the new
process has an empty deduplicator and resumes at the committed offset. The store publishes a
batch whole or not at all. What the deduplicator forgets (all of it at a restart, one key at
an eviction) is what can be stored twice: `Remembers` says that a step forgets no key that
is stored and still to come.
-/
open LogAnalytics.Lib LogAnalytics.Stream.StreamProcessor

namespace LogAnalytics.Stream.Consumer

variable {R E K τ F σ : Type}

/-- A store whose `write` and `flush` publish the whole batch or none of it. -/
structure AtomicPublication (b : StorageBackend E F σ) where
  /-- The events a reader sees. -/
  visible : σ → Multiset E
  /-- The store a new process opens. -/
  reopen : σ → σ
  visible_reopen : ∀ s, visible (reopen s) = visible s
  write_raised : ∀ f s batch runId exn, (b.write f s batch runId).1 = .error exn →
    visible (b.write f s batch runId).2 = visible s ∨ visible (b.write f s batch runId).2 = visible s + batch
  flush_raised : ∀ f g s s' batch runId exn, b.write f s batch runId = (.ok (), s') → (b.flush g s').1 = .error exn →
    visible (b.flush g s').2 = visible s ∨ visible (b.flush g s').2 = visible s + batch
  flush_returned : ∀ f g s s' batch runId, b.write f s batch runId = (.ok (), s') → (b.flush g s').1 = .ok () →
    visible (b.flush g s').2 = visible s + batch

/-- What happens next to the deployment. -/
inductive Happening (τ F : Type) where
  | step (x : Choice τ F)
  /-- The process is killed, or has returned, and is started again. -/
  | restart (monotonic : ℚ)

variable [DecidableEq K] (c : Consumer R E K τ F σ) (a : AtomicPublication c.backend) (maxSize : Nat)
  (hmax : 1 ≤ maxSize) (w : LiveWindow E)

def freshProcessor (monotonic : ℚ) (store : σ) : StreamProcessor E K σ :=
  .new monotonic { seen := .empty maxSize hmax } w store

def worldStep (s : Session E K σ) : Happening τ F → Option (Session E K σ × List (Obs E))
  | .step x => c.step s x
  | .restart monotonic =>
    some (c.start (freshProcessor maxSize hmax w monotonic (a.reopen s.processor.store)) s.committed, [.restarted])

/-! ## The property and the condition -/

/-- The deduplication keys of the events. -/
def keys (stored : Multiset E) : Multiset K := stored.filterMap c.stages.key

/-- The event is stored: under its key exactly once, or as it is when it is exempt. -/
def HasOnce (stored : Multiset E) (e : E) : Prop :=
  match c.stages.key e with
  | some k => (c.keys stored).count k = 1
  | none => e ∈ stored

/-- The message was rejected, or its event is stored exactly once. -/
def StoredOnce (stored : Multiset E) : Outcome E → Prop
  | .rejected => True
  | .accepted e => c.HasOnce stored e
  | .duplicate e => c.HasOnce stored e
  | .raised => False

/-- The deliveries handled since the last commit of this process, and those acknowledged. -/
structure Ledger (E : Type) where
  pending : List (String × Outcome E) := []
  acknowledged : List (String × Outcome E) := []

def Ledger.post (g : Ledger E) : Obs E → Ledger E
  | .handled m outcome => { g with pending := g.pending ++ [(m, outcome)] }
  | .committed true => { pending := [], acknowledged := g.acknowledged ++ g.pending }
  | .restarted => { g with pending := [] }
  | _ => g

def ledger (tr : List (Obs E)) : Ledger E := tr.foldl Ledger.post {}

/-- No key is stored twice; and once the topic is drained, every message was acknowledged,
and every acknowledged delivery was rejected or has its event in the store exactly once. -/
def EffectivelyOnce (s : Session E K σ) (tr : List (Obs E)) : Prop :=
  (c.keys (a.visible s.processor.store)).Nodup ∧
  (s.committed = c.topic.length →
    (∀ (i : Nat) (m : String), c.topic[i]? = some (some m) → ∃ outcome, (m, outcome) ∈ (ledger tr).acknowledged) ∧
    ∀ x ∈ (ledger tr).acknowledged, c.StoredOnce (a.visible s.processor.store) x.2)

/-- The message can be read as a valid event with this key. -/
def Yields (m : String) (k : K) : Prop :=
  ∃ now e, c.stages.verdict now (.text m) = .valid e ∧ c.stages.key e = some k

/-- A message that is waiting, or that the broker still delivers, can yield the key. -/
def ToCome (waiting : List String) (position : Nat) (k : K) : Prop :=
  (∃ m ∈ waiting, c.Yields m k) ∨ ∃ i m, position ≤ i ∧ c.topic[i]? = some (some m) ∧ c.Yields m k

/-- The step forgets no key that is stored and still to come: at a restart the broker
redelivers no message of a stored key; adding a key pushes no key out that comes again; a
flush that raises has published nothing. -/
def Remembers (s : Session E K σ) : Happening τ F → Prop
  | .restart _ => ∀ k ∈ c.keys (a.visible s.processor.store), ¬ c.ToCome [] s.committed k
  | .step (.handle env) =>
    match s.pc with
    | .handling (m :: rest) => ∀ e k', c.stages.verdict env.now (.text m) = .valid e → c.stages.key e = some k' →
        ∀ k ∈ s.processor.deduplicator.seen.keys, k ∉ (s.processor.deduplicator.seen.add k').2.keys →
          ¬ c.ToCome rest s.position k
    | _ => True
  | .step (.flush env) => ∀ exn, (flush c.backend env s.processor).1 = .error exn →
      a.visible (flush c.backend env s.processor).2.store = a.visible s.processor.store
  | _ => True

/-! ## The invariant -/

variable {c a}

def Has (c : Consumer R E K τ F σ) (stored : Multiset E) (e : E) : Prop :=
  match c.stages.key e with
  | some k => k ∈ c.keys stored
  | none => e ∈ stored

/-- As `StoredOnce`, without the uniqueness. -/
def Settled (c : Consumer R E K τ F σ) (stored : Multiset E) : Outcome E → Prop
  | .rejected => True
  | .accepted e => Has c stored e
  | .duplicate e => Has c stored e
  | .raised => False

omit [DecidableEq K]

theorem keys_mono {s t : Multiset E} (h : s ≤ t) : c.keys s ≤ c.keys t := Multiset.filterMap_le_filterMap _ h

theorem Has.mono {s t : Multiset E} (h : s ≤ t) {e : E} (he : Has c s e) : Has c t e := by
  unfold Has at he ⊢
  cases hk : c.stages.key e with
  | none => rw [hk] at he; exact Multiset.mem_of_le h he
  | some k => rw [hk] at he; exact Multiset.mem_of_le (keys_mono h) he

theorem Settled.mono {s t : Multiset E} (h : s ≤ t) {outcome : Outcome E} (hs : Settled c s outcome) :
    Settled c t outcome := by
  cases outcome with
  | rejected => trivial
  | accepted e => exact Has.mono h hs
  | duplicate e => exact Has.mono h hs
  | raised => exact hs

theorem has_of_mem {stored : Multiset E} {e : E} (h : e ∈ stored) : Has c stored e := by
  unfold Has
  cases hk : c.stages.key e with
  | none => exact h
  | some k => exact (Multiset.mem_filterMap _ _).2 ⟨e, h, hk⟩

/-- Where no key repeats, a stored key is stored exactly once. -/
theorem Has.once [DecidableEq K] {stored : Multiset E} (hn : (c.keys stored).Nodup) {e : E} (he : Has c stored e) :
    c.HasOnce stored e := by
  unfold Has at he
  unfold HasOnce
  cases hk : c.stages.key e with
  | none => rw [hk] at he; exact he
  | some k => rw [hk] at he; exact Multiset.count_eq_one_of_mem hn he

theorem Settled.storedOnce [DecidableEq K] {stored : Multiset E} (hn : (c.keys stored).Nodup) {outcome : Outcome E}
    (hs : Settled c stored outcome) : c.StoredOnce stored outcome := by
  cases outcome with
  | rejected => trivial
  | accepted e => exact Has.once hn hs
  | duplicate e => exact Has.once hn hs
  | raised => exact hs

variable (a) in
/-- Everything stored or about to be. -/
def held (p : StreamProcessor E K σ) : Multiset E := a.visible p.store + p.buffer

variable (a) in
structure Once (s : Session E K σ) (tr : List (Obs E)) : Prop where
  nodup : (c.keys (held a s.processor)).Nodup
  known : ∀ k ∈ c.keys (held a s.processor),
    k ∈ s.processor.deduplicator.seen.keys ∨ ¬ c.ToCome (s.pc.waiting.getD []) s.position k
  seen : ∀ k ∈ s.processor.deduplicator.seen.keys, k ∈ c.keys (held a s.processor)
  delivered : ∀ l, s.pc.waiting = some l → ∀ i m, s.committed ≤ i → i < s.position →
    c.topic[i]? = some (some m) → m ∈ l ∨ ∃ outcome, (m, outcome) ∈ (ledger tr).pending
  pending : s.pc.waiting ≠ none → ∀ x ∈ (ledger tr).pending, Settled c (held a s.processor) x.2
  acknowledged : ∀ x ∈ (ledger tr).acknowledged, Settled c (a.visible s.processor.store) x.2
  complete : ∀ i m, i < s.committed → c.topic[i]? = some (some m) →
    ∃ outcome, (m, outcome) ∈ (ledger tr).acknowledged
  empty : s.pc = .committing → s.processor.buffer = []

/-- What is to come later is to come now. -/
theorem ToCome.mono {l l' : List String} {p p' : Nat} {k : K} (hl : ∀ m ∈ l, m ∈ l') (hp : p' ≤ p)
    (h : c.ToCome l p k) : c.ToCome l' p' k := by
  rcases h with ⟨m, hm, hy⟩ | ⟨i, m, hi, ht, hy⟩
  · exact .inl ⟨m, hl m hm, hy⟩
  · exact .inr ⟨i, m, Nat.le_trans hp hi, ht, hy⟩

/-- A step that leaves the processor and the broker alone. -/
theorem Once.idle {s s' : Session E K σ} {tr : List (Obs E)} (ho : Once a s tr) (h : Idle s s') : Once a s' tr := by
  obtain ⟨hp, hpos, hcom, hpc⟩ := h
  have hw : s'.pc.waiting = none ∨ s'.pc.waiting = s.pc.waiting := by
    rcases hpc with h | h | ⟨-, h⟩
    · exact .inr (by rw [h])
    · exact .inl h
    · exact .inr h
  constructor
  · rw [hp]; exact ho.nodup
  · rw [hp, hpos]
    intro k hk
    refine (ho.known k hk).imp id fun hn ht => hn (ht.mono ?_ (Nat.le_refl _))
    rcases hw with h | h
    · simp [h]
    · simp [h]
  · rw [hp]; exact ho.seen
  · intro l hl
    rw [hpos, hcom]
    rcases hw with h | h
    · rw [h] at hl; cases hl
    · exact ho.delivered l (by rw [← h]; exact hl)
  · intro hn
    rw [hp]
    refine ho.pending ?_
    rcases hw with h | h
    · exact absurd h hn
    · rw [← h]; exact hn
  · rw [hp]; exact ho.acknowledged
  · rw [hcom]; exact ho.complete
  · intro hc
    rw [hp]
    rcases hpc with h | h | ⟨h, -⟩
    · exact ho.empty (by rw [← h]; exact hc)
    · rw [hc] at h; cases h
    · exact absurd hc h

theorem ledger_append (tr : List (Obs E)) (o : Obs E) : ledger (tr ++ [o]) = (ledger tr).post o := by
  simp [ledger, List.foldl_append]

theorem Once.tombstone {s : Session E K σ} {tr : List (Obs E)} (ho : Once a s tr)
    (ht : c.topic[s.position]? = some none) : Once a { s with position := s.position + 1 } tr := by
  refine ⟨ho.nodup, fun k hk => ?_, ho.seen, fun l hl i m hi hi' hm => ?_, ho.pending, ho.acknowledged, ho.complete,
    ho.empty⟩
  · exact (ho.known k hk).imp id fun hn h => hn (h.mono (fun _ h => h) (Nat.le_succ _))
  · rcases Nat.lt_succ_iff_lt_or_eq.1 hi' with h | rfl
    · exact ho.delivered l hl i m hi h hm
    · rw [ht] at hm; cases hm

/-- The broker hands over the next message: what was to come from it now waits. -/
theorem Once.delivery {s : Session E K σ} {tr : List (Obs E)} (ho : Once a s tr) {messages : List String} {m : String}
    (hs : s.pc = .polling messages) (ht : c.topic[s.position]? = some (some m)) :
    Once a { s with position := s.position + 1, pc := .polling (messages ++ [m]) } (tr ++ [.polled m]) := by
  have hwait : s.pc.waiting = some messages := by rw [hs]; rfl
  have hled : ledger (tr ++ [Obs.polled m]) = ledger tr := ledger_append tr _
  constructor
  · exact ho.nodup
  · intro k hk
    refine (ho.known k hk).imp id fun hn h => hn ?_
    rw [hwait]
    rcases h with ⟨m', hm, hy⟩ | ⟨i, m', hi, hm, hy⟩
    · rcases List.mem_append.1 hm with hm | hm
      · exact .inl ⟨m', hm, hy⟩
      · rw [List.mem_singleton.1 hm] at hy
        exact .inr ⟨s.position, m, Nat.le_refl _, ht, hy⟩
    · exact .inr ⟨i, m', Nat.le_trans (Nat.le_succ _) hi, hm, hy⟩
  · exact ho.seen
  · intro l hl i m' hi hi' hm
    cases hl
    rw [hled]
    rcases Nat.lt_succ_iff_lt_or_eq.1 hi' with h | rfl
    · exact (ho.delivered _ hwait i m' hi h hm).imp (List.mem_append_left _) id
    · rw [ht] at hm
      cases hm
      exact .inl (List.mem_append_right _ List.mem_cons_self)
  · rw [hled]; exact fun _ => ho.pending (by rw [hwait]; simp)
  · rw [hled]; exact ho.acknowledged
  · rw [hled]; exact ho.complete
  · intro h; cases h

/-- A flush moves the buffer into the store or leaves both. -/
theorem flush_held {env : FlushEnv F} {p q : StreamProcessor E K σ} {r : Except Exn Nat}
    (h : FlushEffect c.backend env p r q) (hraised : ∀ exn, r = .error exn → a.visible q.store = a.visible p.store) :
    held a q = held a p ∧ a.visible p.store ≤ a.visible q.store := by
  cases h with
  | empty hb => exact ⟨rfl, le_refl _⟩
  | writeFailed exn hb hw =>
    have hv := hraised exn rfl
    exact ⟨by simp only [held] at hv ⊢; rw [hv], by rw [hv]⟩
  | flushFailed exn s hb hw hf =>
    have hv := hraised exn rfl
    exact ⟨by simp only [held] at hv ⊢; rw [hv], by rw [hv]⟩
  | published s hb hw hf =>
    have hv := a.flush_returned env.writeFs env.flushFs p.store s p.buffer _ hw hf
    refine ⟨?_, ?_⟩
    · simp only [held, hv]
      rw [Multiset.coe_nil, add_zero]
    · simp only [hv]
      exact Multiset.le_add_right _ _

theorem Once.flush {s : Session E K σ} {tr : List (Obs E)} (ho : Once a s tr) {env : FlushEnv F}
    {r : Except Exn Nat} {q : StreamProcessor E K σ} {pc : Pc} (h : FlushEffect c.backend env s.processor r q)
    (hpc : pc = .committing ∧ s.pc = .handling [] ∧ (∃ n, r = .ok n) ∨ pc.waiting = none)
    (hraised : ∀ exn, r = .error exn → a.visible q.store = a.visible s.processor.store) :
    Once a { s with pc := pc, processor := q } (tr ++ flushObs s.processor.buffer (r, q)) := by
  obtain ⟨hh, hle⟩ := flush_held h hraised
  have hseen : q.deduplicator = s.processor.deduplicator := by cases h <;> rfl
  have hled : ledger (tr ++ flushObs s.processor.buffer (r, q)) = ledger tr := by
    unfold flushObs
    split
    · exact ledger_append tr _
    · split
      · rw [List.append_nil]
      · exact ledger_append tr _
  have hwait : ∀ l, pc.waiting = some l → s.pc.waiting = some [] ∧ l = [] := by
    intro l hl
    rcases hpc with ⟨rfl, hs, -⟩ | hn
    · cases hl
      exact ⟨by rw [hs]; rfl, rfl⟩
    · rw [hn] at hl; cases hl
  constructor
  · rw [hh]; exact ho.nodup
  · rw [hh, hseen]
    intro k hk
    refine (ho.known k hk).imp id fun hn ht => hn (ht.mono ?_ (Nat.le_refl _))
    intro m hm
    cases hp : pc.waiting with
    | none => rw [hp] at hm; cases hm
    | some l =>
      obtain ⟨-, rfl⟩ := hwait l hp
      rw [hp] at hm; cases hm
  · rw [hh, hseen]; exact ho.seen
  · intro l hl
    obtain ⟨hs, rfl⟩ := hwait l hl
    rw [hled]
    exact ho.delivered _ hs
  · intro hn
    obtain ⟨l, hl⟩ := Option.ne_none_iff_exists'.1 hn
    rw [hled, hh]
    exact ho.pending (by rw [(hwait l hl).1]; simp)
  · rw [hled]; exact fun x hx => (ho.acknowledged x hx).mono hle
  · rw [hled]; exact ho.complete
  · intro hc
    obtain rfl : pc = .committing := hc
    rcases hpc with ⟨-, -, n, rfl⟩ | hn
    · exact flush_ok_buffer h
    · cases hn

/-- With the buffer empty, what is pending is in the store, and can be acknowledged. -/
theorem Once.commit {s s' : Session E K σ} {tr : List (Obs E)} (ho : Once a s tr) {acknowledged : Bool}
    (hs : s.pc = .committing) (hp : s'.processor = s.processor) (hpos : s'.position = s.position)
    (hcom : s'.committed = if acknowledged then s.position else s.committed)
    (hpc : s'.pc = .polling [] ∨ s'.pc = .draining none) : Once a s' (tr ++ [.committed acknowledged]) := by
  have hwait : s.pc.waiting = some [] := by rw [hs]; rfl
  have hne : s.pc.waiting ≠ none := by rw [hwait]; simp
  have hwait' : ∀ l, s'.pc.waiting = some l → l = [] := by
    intro l hl
    rcases hpc with h | h <;> rw [h] at hl <;> cases hl
    rfl
  have hheld : held a s.processor = a.visible s.processor.store := by
    simp only [held, ho.empty hs, Multiset.coe_nil, add_zero]
  have hknown : ∀ k ∈ c.keys (held a s.processor), k ∈ s.processor.deduplicator.seen.keys ∨
      ¬ c.ToCome (s'.pc.waiting.getD []) s.position k := by
    intro k hk
    refine (ho.known k hk).imp id fun hn ht => hn (ht.mono ?_ (Nat.le_refl _))
    intro m hm
    rcases hpc with h | h <;> rw [h] at hm <;> cases hm
  have hempty : s'.pc = .committing → s'.processor.buffer = [] := by
    intro hc; rcases hpc with h | h <;> rw [h] at hc <;> cases hc
  have hled := ledger_append tr (Obs.committed acknowledged)
  cases acknowledged with
  | false =>
    have hled : ledger (tr ++ [Obs.committed false]) = ledger tr := hled
    refine ⟨by rw [hp]; exact ho.nodup, by rw [hp, hpos]; exact hknown, by rw [hp]; exact ho.seen, ?_, ?_, ?_, ?_, hempty⟩
    · intro l hl
      rw [hwait' l hl, hpos, hcom, hled]
      exact ho.delivered _ hwait
    · rw [hled, hp]; exact fun _ => ho.pending hne
    · rw [hled, hp]; exact ho.acknowledged
    · rw [hled, hcom]; exact ho.complete
  | true =>
    have hcom : s'.committed = s.position := hcom
    have hled : ledger (tr ++ [Obs.committed true]) = ⟨[], (ledger tr).acknowledged ++ (ledger tr).pending⟩ := hled
    refine ⟨by rw [hp]; exact ho.nodup, by rw [hp, hpos]; exact hknown, by rw [hp]; exact ho.seen, ?_, ?_, ?_, ?_, hempty⟩
    · intro l hl i m hi hi'
      rw [hcom] at hi; rw [hpos] at hi'
      omega
    · rw [hled]; intro _ x hx; cases hx
    · rw [hled, hp]
      intro x hx
      rcases List.mem_append.1 hx with hx | hx
      · exact ho.acknowledged x hx
      · rw [← hheld]; exact ho.pending hne x hx
    · rw [hled, hcom]
      intro i m hi hm
      by_cases hlt : i < s.committed
      · obtain ⟨outcome, h⟩ := ho.complete i m hlt hm
        exact ⟨outcome, List.mem_append_left _ h⟩
      · rcases ho.delivered _ hwait i m (by omega) hi hm with h | ⟨outcome, h⟩
        · cases h
        · exact ⟨outcome, List.mem_append_right _ h⟩

/-! ## Handling a message -/

theorem held_snoc (a : AtomicPublication c.backend) {p q : StreamProcessor E K σ} {e : E} (hs : q.store = p.store) (hb : q.buffer = p.buffer ++ [e]) :
    held a q = held a p + {e} := by
  simp only [held, hs, hb, ← Multiset.coe_add, Multiset.coe_singleton, add_assoc]

theorem keys_snoc (c : Consumer R E K τ F σ) (stored : Multiset E) (e : E) :
    c.keys (stored + {e}) = c.keys stored + ((c.stages.key e).map singleton).getD 0 := by
  simp only [keys, Multiset.filterMap_add]
  congr 1
  rw [← Multiset.cons_zero, Multiset.filterMap_cons, Multiset.filterMap_zero, add_zero]

variable (a) in
/-- The part of `Once` about the processor: no key is held twice, and the deduplicator knows
the held keys that are still to come. -/
structure Tracked (p : StreamProcessor E K σ) (waiting : List String) (position : Nat) : Prop where
  nodup : (c.keys (held a p)).Nodup
  known : ∀ k ∈ c.keys (held a p), k ∈ p.deduplicator.seen.keys ∨ ¬ c.ToCome waiting position k
  seen : ∀ k ∈ p.deduplicator.seen.keys, k ∈ c.keys (held a p)

/-- Accepting an event whose key is new holds that key once. -/
theorem Tracked.accept [DecidableEq K] {p q : StreamProcessor E K σ} {m : String} {rest : List String} {position : Nat}
    {now : τ} {e : E} (ht : Tracked a p (m :: rest) position) (hv : c.stages.verdict now (.text m) = .valid e)
    (hdup : (p.deduplicator.isDuplicate c.stages.key e).1 = false) (hh : held a q = held a p + {e})
    (hd : q.deduplicator = (p.deduplicator.isDuplicate c.stages.key e).2)
    (hrem : ∀ k', c.stages.key e = some k' → ∀ k ∈ p.deduplicator.seen.keys,
      k ∉ (p.deduplicator.seen.add k').2.keys → ¬ c.ToCome rest position k) : Tracked a q rest position := by
  have hlater : ∀ k, ¬ c.ToCome (m :: rest) position k → ¬ c.ToCome rest position k := fun k hn h =>
    hn (h.mono (fun _ => List.mem_cons_of_mem m) (Nat.le_refl _))
  have hseen := Deduplicator.isDuplicate_seen c.stages.key p.deduplicator e
  rw [← hd] at hseen
  have hkeys := keys_snoc c (held a p) e
  rw [← hh] at hkeys
  cases hk : c.stages.key e with
  | none =>
    simp only [hk] at hseen
    simp only [hk, Option.map_none, Option.getD_none, add_zero] at hkeys
    refine ⟨by rw [hkeys]; exact ht.nodup, ?_, by rw [hkeys, hseen]; exact ht.seen⟩
    rw [hkeys, hseen]
    exact fun k hm => (ht.known k hm).imp id (hlater k)
  | some k' =>
    simp only [hk] at hseen
    simp only [hk, Option.map_some, Option.getD_some] at hkeys
    have hnew : k' ∉ p.deduplicator.seen.keys := by
      intro hm
      have := (Deduplicator.isDuplicate_fst c.stages.key p.deduplicator e).2 ⟨k', hk, hm⟩
      rw [hdup] at this; cases this
    -- this very message can yield `k'`, so a held `k'` would still be tracked
    have hfree : k' ∉ c.keys (held a p) := by
      intro hm
      rcases ht.known k' hm with h | h
      · exact hnew h
      · exact h (.inl ⟨m, List.mem_cons_self, now, e, hv, hk⟩)
    have hcons : c.keys (held a q) = k' ::ₘ c.keys (held a p) := by
      rw [hkeys, Multiset.add_comm, Multiset.singleton_add]
    refine ⟨?_, ?_, ?_⟩
    · rw [hcons]; exact Multiset.nodup_cons.2 ⟨hfree, ht.nodup⟩
    · intro k hm
      rw [hseen]
      rw [hcons] at hm
      rcases Multiset.mem_cons.1 hm with rfl | hm
      · exact .inl (SeenKeys.mem_add_self _ _)
      · rcases ht.known k hm with h | h
        · by_cases hkept : k ∈ (p.deduplicator.seen.add k').2.keys
          · exact .inl hkept
          · exact .inr (hrem k' hk k h hkept)
        · exact .inr (hlater k h)
    · intro k hm
      rw [hseen] at hm
      rw [hcons]
      rcases SeenKeys.mem_add hm with h | rfl
      · exact Multiset.mem_cons_of_mem (ht.seen k h)
      · exact Multiset.mem_cons_self _ _

/-- What a handled message leaves: the processor tracks its keys, and the outcome is settled. -/
theorem Tracked.handled [DecidableEq K] {p q : StreamProcessor E K σ} {m : String} {rest : List String} {position : Nat}
    {now : τ} {outcome : Outcome E} (ht : Tracked a p (m :: rest) position) (hs : q.store = p.store)
    (ha : c.HandledAs now m p q outcome)
    (hrem : ∀ e k', c.stages.verdict now (.text m) = .valid e → c.stages.key e = some k' →
      ∀ k ∈ p.deduplicator.seen.keys, k ∉ (p.deduplicator.seen.add k').2.keys → ¬ c.ToCome rest position k) :
    Tracked a q rest position ∧ held a p ≤ held a q ∧ (outcome ≠ .raised → Settled c (held a q) outcome) := by
  have hlater : ∀ k, ¬ c.ToCome (m :: rest) position k → ¬ c.ToCome rest position k := fun k hn h =>
    hn (h.mono (fun _ => List.mem_cons_of_mem m) (Nat.le_refl _))
  have hsame : q.buffer = p.buffer → (∀ k, k ∈ q.deduplicator.seen.keys ↔ k ∈ p.deduplicator.seen.keys) →
      held a q = held a p ∧ Tracked a q rest position := by
    intro hb hk
    have hh : held a q = held a p := by simp only [held, hs, hb]
    refine ⟨hh, by rw [hh]; exact ht.nodup, fun k hm => ?_, fun k hm => ?_⟩
    · rw [hh] at hm
      exact (ht.known k hm).imp (hk k).2 (hlater k)
    · rw [hh]; exact ht.seen k ((hk k).1 hm)
  cases ha with
  | raised hb hd =>
    obtain ⟨hh, htr⟩ := hsame hb (by simp [hd])
    exact ⟨htr, by rw [hh], fun h => absurd rfl h⟩
  | rejected _ _ _ _ hb hd =>
    obtain ⟨hh, htr⟩ := hsame hb (by simp [hd])
    exact ⟨htr, by rw [hh], fun _ => trivial⟩
  | duplicate e hv hdup hb hd =>
    obtain ⟨hh, htr⟩ := hsame hb (by rw [hd]; exact Deduplicator.isDuplicate_keys hdup)
    refine ⟨htr, by rw [hh], fun _ => ?_⟩
    obtain ⟨k, hk, hm⟩ := (Deduplicator.isDuplicate_fst _ _ _).1 hdup
    rw [hh]
    simp only [Settled, Has, hk]
    exact ht.seen k hm
  | accepted e hv hdup hb hd =>
    have hh := held_snoc a hs hb
    refine ⟨ht.accept hv hdup hh hd (hrem e · hv), ?_, fun _ => ?_⟩
    · rw [hh]; exact Multiset.le_add_right _ _
    · exact has_of_mem (by rw [hh]; exact Multiset.mem_add.2 (.inr (Multiset.mem_singleton_self e)))

theorem Once.handle [DecidableEq K] {s : Session E K σ} {tr : List (Obs E)} (ho : Once a s tr) {m : String}
    {rest : List String} {now : τ} {r : Except Exn (Option E)} {q : StreamProcessor E K σ} {pc : Pc}
    (hs : s.pc = .handling (m :: rest)) (h : HandleEffect c.stages now (.text m) s.processor r q)
    (hpc : pc = .handling rest ∧ (∀ exn, r ≠ .error exn) ∨ pc.waiting = none)
    (hrem : ∀ e k', c.stages.verdict now (.text m) = .valid e → c.stages.key e = some k' →
      ∀ k ∈ s.processor.deduplicator.seen.keys, k ∉ (s.processor.deduplicator.seen.add k').2.keys →
        ¬ c.ToCome rest s.position k) :
    Once a { s with pc := pc, processor := q } (tr ++ [.handled m (c.outcome now m r)]) := by
  have hwait : s.pc.waiting = some (m :: rest) := by rw [hs]; rfl
  have hne : s.pc.waiting ≠ none := by rw [hwait]; simp
  have hr : pc.waiting ≠ none → c.outcome now m r ≠ .raised := fun hn => by
    rcases hpc with ⟨-, h⟩ | h
    · exact c.outcome_ne_raised now m h
    · exact absurd h hn
  have htracked : Tracked a s.processor (m :: rest) s.position :=
    ⟨ho.nodup, by have := ho.known; rwa [hwait] at this, ho.seen⟩
  obtain ⟨ha, hst⟩ := c.handledAs h
  obtain ⟨htr, hle, hset⟩ := htracked.handled hst ha hrem
  have hled : ledger (tr ++ [Obs.handled m (c.outcome now m r)]) =
      ⟨(ledger tr).pending ++ [(m, c.outcome now m r)], (ledger tr).acknowledged⟩ := ledger_append tr _
  constructor
  · exact htr.nodup
  · refine fun k hk => (htr.known k hk).imp id fun hn hc => hn (hc.mono ?_ (Nat.le_refl _))
    intro m' hm'
    rcases hpc with ⟨rfl, -⟩ | h
    · exact hm'
    · rw [h] at hm'; cases hm'
  · exact htr.seen
  · intro l hl i m' hi hi' hm
    rw [hled]
    rcases hpc with ⟨rfl, -⟩ | h
    · cases hl
      rcases ho.delivered _ hwait i m' hi hi' hm with h | ⟨outcome, h⟩
      · rcases List.mem_cons.1 h with rfl | h
        · exact .inr ⟨_, List.mem_append_right _ List.mem_cons_self⟩
        · exact .inl h
      · exact .inr ⟨outcome, List.mem_append_left _ h⟩
    · rw [h] at hl; cases hl
  · intro hn x hx
    rw [hled] at hx
    rcases List.mem_append.1 hx with hx | hx
    · exact (ho.pending hne x hx).mono hle
    · rw [List.mem_singleton.1 hx]; exact hset (hr hn)
  · rw [hled]
    simp only [hst]
    exact ho.acknowledged
  · rw [hled]; exact ho.complete
  · intro hc
    rcases hpc with ⟨rfl, -⟩ | h
    · cases hc
    · obtain rfl : pc = .committing := hc
      cases h

/-- A new process knows nothing, and resumes at the committed offset. -/
theorem Once.restart [DecidableEq K] {s : Session E K σ} {tr : List (Obs E)} (ho : Once a s tr) {maxSize : Nat}
    {hmax : 1 ≤ maxSize} {w : LiveWindow E} {monotonic : ℚ}
    (hrem : ∀ k ∈ c.keys (a.visible s.processor.store), ¬ c.ToCome [] s.committed k) :
    Once a (c.start (freshProcessor maxSize hmax w monotonic (a.reopen s.processor.store)) s.committed)
      (tr ++ [.restarted]) := by
  obtain ⟨hp, hpos, hcom, hpc⟩ :=
    c.start_spec (freshProcessor maxSize hmax w monotonic (a.reopen s.processor.store)) s.committed
  have hled : ledger (tr ++ [Obs.restarted]) = ⟨[], (ledger tr).acknowledged⟩ := ledger_append tr _
  have hview : a.visible (a.reopen s.processor.store) = a.visible s.processor.store := a.visible_reopen _
  have hheld : held a (freshProcessor maxSize hmax w monotonic (a.reopen s.processor.store)) =
      a.visible s.processor.store := by
    simp only [held, freshProcessor, StreamProcessor.new, hview, Multiset.coe_nil, add_zero]
  constructor
  · rw [hp, hheld]
    exact Multiset.nodup_of_le (keys_mono (Multiset.le_add_right _ _)) ho.nodup
  · rw [hp, hheld, hpos]
    refine fun k hk => .inr fun h => hrem k hk (h.mono ?_ (Nat.le_refl _))
    intro m hm
    rcases hpc with h | h <;> rw [h] at hm <;> cases hm
  · rw [hp]; intro k hk; cases hk
  · intro l hl i m hi hi'
    rw [hcom] at hi; rw [hpos] at hi'
    omega
  · rw [hled]; intro _ x hx; cases hx
  · rw [hled, hp]
    intro x hx
    simp only [freshProcessor, StreamProcessor.new, hview]
    exact ho.acknowledged x hx
  · rw [hled, hcom]; exact ho.complete
  · intro hc; rcases hpc with h | h <;> rw [h] at hc <;> cases hc

theorem once_step [DecidableEq K] {maxSize : Nat} {hmax : 1 ≤ maxSize} {w : LiveWindow E} {s s' : Session E K σ}
    {x : Happening τ F} {o tr : List (Obs E)} (ho : Once a s tr) (hrem : c.Remembers a s x)
    (h : c.worldStep a maxSize hmax w s x = some (s', o)) : Once a s' (tr ++ o) := by
  cases x with
  | restart monotonic =>
    simp only [worldStep, Option.some.injEq, Prod.mk.injEq] at h
    obtain ⟨rfl, rfl⟩ := h
    exact ho.restart hrem
  | step x =>
    cases c.step_effect h with
    | idle _ _ hi => rw [List.append_nil]; exact ho.idle hi
    | tombstone _ _ ht => rw [List.append_nil]; exact ho.tombstone ht
    | delivered _ messages m hs ht => exact ho.delivery hs ht
    | handled env m rest r q pc hs he hpc =>
      simp only [Remembers, hs] at hrem
      exact ho.handle hs he hpc hrem
    | flushed env r q pc he hpc =>
      simp only [Remembers, he] at hrem
      exact ho.flush (flush_effect_of he) hpc hrem
    | committed _ b _ hs hp hpos hcom hpc => exact ho.commit hs hp hpos hcom hpc

/-! ## Effectively once -/

theorem Once.effectivelyOnce [DecidableEq K] {s : Session E K σ} {tr : List (Obs E)} (ho : Once a s tr) :
    c.EffectivelyOnce a s tr := by
  have hn : (c.keys (a.visible s.processor.store)).Nodup :=
    Multiset.nodup_of_le (keys_mono (Multiset.le_add_right _ _)) ho.nodup
  refine ⟨hn, fun hdrained => ⟨fun i m hm => ?_, fun x hx => (ho.acknowledged x hx).storedOnce hn⟩⟩
  refine ho.complete i m ?_ hm
  rw [hdrained]
  exact (List.getElem?_eq_some_iff.1 hm).1

/-- From an empty store, over any restarts: while no step forgets a key that is stored and
still to come, no key is stored twice; and when the topic is drained, every message is
acknowledged, and rejected or stored exactly once. -/
theorem effectively_once [DecidableEq K] (c : Consumer R E K τ F σ) (a : AtomicPublication c.backend) (maxSize : Nat)
    (hmax : 1 ≤ maxSize) (w : LiveWindow E) (monotonic : ℚ) (store : σ) (hempty : a.visible store = 0)
    (happenings : List (Happening τ F)) (s : Session E K σ) (tr : List (Obs E))
    (hrem : Throughout (c.Remembers a) (c.worldStep a maxSize hmax w)
      (c.start (freshProcessor maxSize hmax w monotonic store) 0) happenings)
    (h : runs (c.worldStep a maxSize hmax w) (c.start (freshProcessor maxSize hmax w monotonic store) 0) happenings =
      some (s, tr)) : c.EffectivelyOnce a s tr := by
  have hstart : Once a (c.start (freshProcessor maxSize hmax w monotonic store) 0) [] := by
    obtain ⟨hp, hpos, hcom, hpc⟩ := c.start_spec (freshProcessor maxSize hmax w monotonic store) 0
    have hheld : held a (freshProcessor maxSize hmax w monotonic store) = 0 := by
      simp only [held, freshProcessor, StreamProcessor.new, hempty, Multiset.coe_nil, add_zero]
    constructor
    · rw [hp, hheld]; exact Multiset.nodup_zero
    · rw [hp, hheld]; intro k hk; cases hk
    · rw [hp]; intro k hk; cases hk
    · intro l hl i m hi hi'; rw [hpos] at hi'; omega
    · intro _ x hx; cases hx
    · intro x hx; cases hx
    · intro i m hi; rw [hcom] at hi; omega
    · intro hc; rcases hpc with h | h <;> rw [h] at hc <;> cases hc
  have hrun := runs_inv_of (c.Remembers a) (Once a) (fun s x s' o tr ho hr hs => once_step ho hr hs)
    happenings _ s [] tr hstart hrem h
  exact hrun.effectivelyOnce

/-! ## A kill before and after the flush -/

/-- A topic of one message. -/
def oneMessage : Consumer Unit String String Unit (Option Exn) (MemoryStore String) :=
  ⟨echoStages, memoryBackend String, 10, none, [some "a"]⟩

def memoryPublication : AtomicPublication oneMessage.backend where
  visible s := s.published
  reopen s := { s with staged := [] }
  visible_reopen _ := rfl
  write_raised f s batch runId exn h := by
    cases f with
    | none => cases h
    | some _ => exact .inl rfl
  flush_raised f g s s' batch runId exn hw hf := by
    cases f with
    | some _ => cases hw
    | none =>
      cases hw
      cases g with
      | none => cases hf
      | some _ => exact .inl rfl
  flush_returned f g s s' batch runId hw hf := by
    cases f with
    | some _ => cases hw
    | none =>
      cases hw
      cases g with
      | some _ => cases hf
      | none => rfl

/-- What the process does with the message, up to the commit. -/
def deliverOne : List (Happening Unit (Option Exn)) :=
  [.step (.poll .delivered), .step (.poll .timeout), .step (.handle ⟨(), none⟩), .step (.flush ⟨7, 0, 0, none, none⟩)]

def killedBeforeFlush : List (Happening Unit (Option Exn)) :=
  deliverOne.take 3 ++ .restart 1 :: deliverOne ++ [.step (.commit true)]

def killedBeforeCommit : List (Happening Unit (Option Exn)) :=
  deliverOne ++ .restart 1 :: deliverOne ++ [.step (.commit true)]

/-- The deployment over `oneMessage`, started on an empty store. -/
def runOne (happenings : List (Happening Unit (Option Exn))) :
    Option (Session String String (MemoryStore String) × List (Obs String)) :=
  runs (oneMessage.worldStep memoryPublication 10 SeenKeys.one_le_ten ⟨10, []⟩)
    (oneMessage.start (freshProcessor 10 SeenKeys.one_le_ten ⟨10, []⟩ 0 {}) 0) happenings

/-- Killed before the flush, the process stores the message once. -/
theorem effectively_once_kill : ∃ s tr, runOne killedBeforeFlush = some (s, tr) ∧ s.committed = 1 ∧ oneMessage.EffectivelyOnce memoryPublication s tr := by
  have hsome : (runOne killedBeforeFlush).isSome := rfl
  obtain ⟨⟨s, tr⟩, hr⟩ := Option.isSome_iff_exists.1 hsome
  have hc : (runOne killedBeforeFlush).map (·.1.committed) =
    some 1 := rfl
  rw [hr] at hc
  refine ⟨s, tr, hr, Option.some.inj hc, effectively_once oneMessage memoryPublication 10 SeenKeys.one_le_ten ⟨10, []⟩ 0 {} rfl
    _ s tr ?_ hr⟩
  refine throughout_cons rfl trivial (throughout_cons rfl trivial (throughout_cons rfl ?_ (throughout_cons rfl ?_
    (throughout_cons rfl trivial (throughout_cons rfl trivial (throughout_cons rfl ?_ (throughout_cons rfl ?_
      (throughout_cons rfl trivial trivial))))))))
  · intro e k' _ _ k hk; cases hk
  · intro k hk; cases hk
  · intro e k' _ _ k hk; cases hk
  · intro exn h; cases h

/-- Killed after the flush and before the commit, it stores the message twice. -/
theorem replay_stored_twice : ∃ s tr, runOne killedBeforeCommit = some (s, tr) ∧
    s.committed = oneMessage.topic.length ∧ s.processor.store.published = ["a", "a"] ∧
    ¬ oneMessage.EffectivelyOnce memoryPublication s tr := by
  have hsome : (runOne killedBeforeCommit).isSome := rfl
  obtain ⟨⟨s, tr⟩, hr⟩ := Option.isSome_iff_exists.1 hsome
  have hc : (runOne killedBeforeCommit).map
    (fun r => (r.1.committed, r.1.processor.store.published)) = some (1, ["a", "a"]) := rfl
  rw [hr] at hc
  obtain ⟨hcom, hpub⟩ := Prod.mk.inj (Option.some.inj hc)
  refine ⟨s, tr, hr, hcom, hpub, fun h => ?_⟩
  have hn := h.1
  rw [show memoryPublication.visible s.processor.store = (s.processor.store.published : Multiset String) from rfl,
    hpub] at hn
  exact absurd hn (by decide)

end LogAnalytics.Stream.Consumer
