import LogAnalytics.Cache.Memory
import LogAnalytics.Outages
/-!
# The Redis cache

`RedisCache` with its breaker and its statistics, as the processes of a deployment use it: each has a
client of its own, and all share the keys of one server. A command can fail before or after the
server has carried it out, and an open breaker keeps it from being sent. The cache fails open: what
`get` serves was written for that key, by whichever process, and is neither expired nor known to be
gone.
-/
open LogAnalytics.Lib

namespace LogAnalytics.Cache

/-- `json.dumps(value, default=str)`, which may raise, and `json.loads`, which may raise or read `null`. -/
structure Codec (V : Type) where
  dumps : V → Option Text
  loads : Text → Option (Option V)

/-- What becomes of a command that is sent. -/
inductive Delivery where
  | answered
  /-- An exception is raised, with the command carried out or not. -/
  | failed (carriedOut : Bool)
  deriving DecidableEq

/-- When a command is asked for, when a failure of it is recorded, and what becomes of it. -/
structure Sending where
  now : ℚ
  later : ℚ
  delivery : Delivery
  deriving DecidableEq

inductive Outcome where
  | refused
  | sent (delivery : Delivery)
  deriving DecidableEq

def Outcome.carriedOut : Outcome → Bool
  | .sent .answered | .sent (.failed true) => true
  | _ => false

def Outcome.answered : Outcome → Bool
  | .sent .answered => true
  | _ => false

theorem Outcome.carriedOut_of_answered {o : Outcome} (h : o.answered = true) : o.carriedOut = true := by
  cases o with
  | refused => cases h
  | sent d => cases d with
    | answered => rfl
    | failed carriedOut => cases h

/-! ## The server -/

/-- The keys of the server, with their deadlines and payloads. -/
abbrev Table := RedisCache (ℚ × Text)

namespace RedisCache

/-- A key that has expired is gone. -/
def live (t : Table) (now : ℚ) : Table := ⟨t.entries.filter fun e => now < e.2.1⟩

def getPayload (t : Table) (key : Text) : Option Text := (t.get key).map Prod.snd

/-- `SET key payload EX lifetime` -/
def put (t : Table) (key payload : Text) (deadline : ℚ) : Table :=
  ⟨t.entries.filter (·.1 ≠ key) ++ [(key, deadline, payload)]⟩

def delete (t : Table) (keys : List Text) : Table := ⟨t.entries.filter (·.1 ∉ keys)⟩

/-- What `SCAN` may yield: keys that match, and all of them that are there when it comes to its end. -/
def scans (g : Glob) (pattern : Text) (t : Table) (scanned : List Text) (delivery : Delivery) : Bool :=
  scanned.all (g.isMatch pattern) &&
    (delivery ≠ .answered || t.entries.all fun e => !g.isMatch pattern e.1 || e.1 ∈ scanned)

end RedisCache

/-! ## A client -/

structure Client where
  breaker : CircuitBreaker := { failureThreshold := 3, resetTimeout := 15 }
  stats : CacheStats := {}

namespace Client

/-- What `_guard` makes of a command. -/
def outcome (c : Client) (s : Sending) : Outcome := if (c.breaker.allows s.now).1 then .sent s.delivery else .refused

/-- `_guard`, with what the command would answer and leave behind. -/
def guard {α : Type} (c : Client) (s : Sending) (t : Table) (action : α × Table) (default : α) : α × Client × Table :=
  let (allowed, breaker) := c.breaker.allows s.now
  if allowed then
    match s.delivery with
    | .answered => (action.1, { c with breaker := breaker.recordSuccess }, action.2)
    | .failed carriedOut =>
      (default, ⟨breaker.recordFailure s.later, { c.stats with errors := c.stats.errors + 1 }⟩,
        if carriedOut then action.2 else t)
  else (default, { c with breaker := breaker }, t)

def miss (c : Client) : Client := { c with stats := { c.stats with misses := c.stats.misses + 1 } }

def hit (c : Client) : Client := { c with stats := { c.stats with hits := c.stats.hits + 1 } }

def delete (c : Client) (key : Text) (s : Sending) (t : Table) : Client × Table :=
  (c.guard s t ((), (t.live s.now).delete [key]) ()).2

def fetch (c : Client) (key : Text) (s : Sending) (t : Table) : Option Text × Client × Table :=
  c.guard s t ((t.live s.now).getPayload key, t.live s.now) none

/-- A payload that does not parse is deleted. -/
def get {V : Type} (codec : Codec V) (c : Client) (key : Text) (s cleanup : Sending) (t : Table) :
    Option V × Client × Table :=
  match c.fetch key s t with
  | (none, c, t) => (none, c.miss, t)
  | (some raw, c, t) =>
    match codec.loads raw with
    | none =>
      let (c, t) := c.delete key cleanup t
      (none, c.miss, t)
    | some value => (value, c.hit, t)

/-- Redis rejects an expiry of zero. -/
def lifetime (defaultTtl : Int) (ttl : Option Int) : ℚ := (max 1 (ttl.getD defaultTtl) : Int)

def set {V : Type} (codec : Codec V) (defaultTtl : Int) (c : Client) (key : Text) (value : V) (ttl : Option Int)
    (s : Sending) (t : Table) : Client × Table :=
  match codec.dumps value with
  | none => (c, t)
  | some payload =>
    let (c, t) := (c.guard s t ((), (t.live s.now).put key payload (s.now + lifetime defaultTtl ttl)) ()).2
    ({ c with stats := { c.stats with sets := c.stats.sets + 1 } }, t)

/-- `scanned` are the keys that `SCAN` yields, up to the end or to the failure. -/
def clear (c : Client) (scanned : List Text) (s : Sending) (t : Table) : Nat × Client × Table :=
  c.guard s t (scanned.length, (t.live s.now).delete scanned) 0

end Client

/-! ## The deployment -/

inductive CacheCall (V : Type) where
  | get (key : Text) (s cleanup : Sending)
  | set (key : Text) (value : V) (ttl : Option Int) (s : Sending)
  | delete (key : Text) (s : Sending)
  | clear (view : Option Text) (scanned : List Text) (s : Sending)

inductive CacheEvent (V : Type) where
  | wrote (now : ℚ) (key : Text) (value : V) (ttl : Option Int) (o : Outcome)
  | removed (key : Text) (o : Outcome)
  | swept (view : Option Text) (o : Outcome)
  | got (now : ℚ) (key : Text) (value : Option V)
  deriving DecidableEq

structure Deployment where
  table : Table := ⟨[]⟩
  client : Nat → Client := fun _ => {}

section

variable {V : Type} (codec : Codec V) (g : Glob) (b : Backend) (defaultTtl : Int)

/-- A call by the process `i`. -/
def Deployment.step (d : Deployment) : Nat × CacheCall V → Option (Deployment × List (CacheEvent V))
  | (i, .get key s cleanup) =>
    let (value, c, t) := (d.client i).get codec key s cleanup d.table
    let (raw, fetched, _) := (d.client i).fetch key s d.table
    some (⟨t, Function.update d.client i c⟩,
      (if raw.any fun raw => (codec.loads raw).isNone then [.removed key (fetched.outcome cleanup)] else []) ++
        [.got s.now key value])
  | (i, .set key value ttl s) =>
    let c := d.client i
    let (c', t) := c.set codec defaultTtl key value ttl s d.table
    some (⟨t, Function.update d.client i c'⟩,
      if (codec.dumps value).isSome then [.wrote s.now key value ttl (c.outcome s)] else [])
  | (i, .delete key s) =>
    let c := d.client i
    let (c', t) := c.delete key s d.table
    some (⟨t, Function.update d.client i c'⟩, [.removed key (c.outcome s)])
  | (i, .clear view scanned s) =>
    let c := d.client i
    if (d.table.live s.now).scans g (RedisCache.scope b view ++ [star]) scanned s.delivery then
      let (_, c', t) := c.clear scanned s d.table
      some (⟨t, Function.update d.client i c'⟩, [.swept view (c.outcome s)])
    else none

/-- An answer after which the key no longer holds what it held. -/
def CacheEvent.forgets (key : Text) : CacheEvent V → Bool
  | .wrote _ other _ _ o => o.answered && other = key
  | .removed other o => o.answered && other = key
  | .swept view o => o.answered && g.isMatch (RedisCache.scope b view ++ [star]) key
  | .got .. => false

/-- The key was last written with this payload and deadline, and no answer since says that it is gone. -/
def Written (tr : List (CacheEvent V)) (key : Text) (deadline : ℚ) (payload : Text) : Prop :=
  ∃ before since written value ttl o, tr = before ++ .wrote written key value ttl o :: since ∧
    o.carriedOut = true ∧ deadline = written + Client.lifetime defaultTtl ttl ∧ codec.dumps value = some payload ∧
      ∀ e ∈ since, e.forgets g b key = false

end

/-! ## What the server holds -/

variable {V : Type} {codec : Codec V} {g : Glob} {b : Backend} {defaultTtl : Int}

theorem Written.snoc {tr : List (CacheEvent V)} {key : Text} {deadline : ℚ} {payload : Text} {e : CacheEvent V}
    (h : Written codec g b defaultTtl tr key deadline payload) (he : e.forgets g b key = false) :
    Written codec g b defaultTtl (tr ++ [e]) key deadline payload := by
  obtain ⟨before, since, written, value, ttl, o, rfl, ho, hdeadline, hpayload, hsince⟩ := h
  refine ⟨before, since ++ [e], written, value, ttl, o, by simp, ho, hdeadline, hpayload, fun x hx => ?_⟩
  rcases List.mem_append.1 hx with hx | hx
  · exact hsince x hx
  · rw [List.mem_singleton.1 hx]
    exact he

/-- Everything on the server was written, and so was everything that has been served. -/
structure Deployment.Inv (codec : Codec V) (g : Glob) (b : Backend) (defaultTtl : Int) (d : Deployment)
    (tr : List (CacheEvent V)) : Prop where
  holds : ∀ e ∈ d.table.entries, Written codec g b defaultTtl tr e.1 e.2.1 e.2.2
  served : ∀ earlier later now key value, tr = earlier ++ .got now key (some value) :: later →
    ∃ deadline payload, Written codec g b defaultTtl earlier key deadline payload ∧ now < deadline ∧
      codec.loads payload = some (some value)

namespace Client

/-- `_guard` leaves what the command leaves when it is carried out, and answers it when it is answered. -/
theorem guard_spec {α : Type} (c : Client) (s : Sending) (t : Table) (action : α × Table) (default : α) :
    (c.guard s t action default).2.2 = (if (c.outcome s).carriedOut then action.2 else t) ∧
      (c.guard s t action default).1 = if (c.outcome s).answered then action.1 else default := by
  unfold guard outcome
  cases hallowed : (c.breaker.allows s.now).1 with
  | false => simp [Outcome.carriedOut, Outcome.answered, hallowed]
  | true =>
    cases hd : s.delivery with
    | answered => simp [Outcome.carriedOut, Outcome.answered, hallowed]
    | failed carriedOut => cases carriedOut <;> simp [Outcome.carriedOut, Outcome.answered, hallowed]

theorem guard_stats {α : Type} (c : Client) (s : Sending) (t : Table) (action : α × Table) (default : α) :
    (c.guard s t action default).2.1.stats.hits = c.stats.hits ∧
      (c.guard s t action default).2.1.stats.misses = c.stats.misses := by
  unfold guard
  simp only
  split
  · split <;> exact ⟨rfl, rfl⟩
  · exact ⟨rfl, rfl⟩

theorem guard_subset {α : Type} (c : Client) (s : Sending) {t : Table} {action : α × Table} (default : α)
    (h : action.2.entries ⊆ t.entries) : (c.guard s t action default).2.2.entries ⊆ t.entries := by
  rw [(c.guard_spec s t action default).1]
  split
  · exact h
  · exact fun _ he => he

theorem fetch_some {c : Client} {key raw : Text} {s : Sending} {t : Table} (h : (c.fetch key s t).1 = some raw) :
    ∃ deadline, (key, deadline, raw) ∈ t.entries ∧ s.now < deadline := by
  rw [fetch, (c.guard_spec s t _ none).2] at h
  split at h
  · obtain ⟨⟨deadline, payload⟩, hfound, rfl⟩ := Option.map_eq_some_iff.1 h
    obtain ⟨hmem, hlive⟩ := List.mem_filter.1 (mem_of_lookup hfound)
    exact ⟨deadline, hmem, by simpa using hlive⟩
  · cases h

theorem fetch_subset (c : Client) (key : Text) (s : Sending) (t : Table) : (c.fetch key s t).2.2.entries ⊆ t.entries :=
  c.guard_subset s none fun _ he => List.mem_of_mem_filter he

/-- What is left after keys have been deleted. -/
theorem guard_delete {α : Type} (c : Client) (s : Sending) (t : Table) (keys : List Text) (answer default : α) :
    let r := c.guard s t (answer, (t.live s.now).delete keys) default
    r.2.2.entries ⊆ t.entries ∧ ((c.outcome s).answered = true → ∀ e ∈ r.2.2.entries, e.1 ∉ keys ∧ s.now < e.2.1) := by
  intro r
  refine ⟨c.guard_subset s default fun e he => List.mem_of_mem_filter (List.mem_of_mem_filter he), fun ho e he => ?_⟩
  rw [(c.guard_spec s t _ default).1, if_pos (Outcome.carriedOut_of_answered ho)] at he
  obtain ⟨he, hkey⟩ := List.mem_filter.1 he
  exact ⟨by simpa using hkey, by simpa using (List.mem_filter.1 he).2⟩

/-- A lookup serves what the server holds, and deletes a payload that does not parse. -/
theorem get_spec (codec : Codec V) (c : Client) (key : Text) (s cleanup : Sending) (t : Table) :
    let r := c.get codec key s cleanup t
    let fetched := c.fetch key s t
    r.2.2.entries ⊆ t.entries ∧
      (∀ value, r.1 = some value → ∃ deadline payload, (key, deadline, payload) ∈ t.entries ∧ s.now < deadline ∧
        codec.loads payload = some (some value)) ∧
      ((fetched.1.any fun raw => (codec.loads raw).isNone) = true → r.1 = none ∧
        ((fetched.2.1.outcome cleanup).answered = true → ∀ e ∈ r.2.2.entries, e.1 ≠ key)) := by
  intro r fetched
  have hsubset := c.fetch_subset key s t
  have hsome (raw : Text) (h : (c.fetch key s t).1 = some raw) := fetch_some h
  simp only [r, fetched, get]
  generalize c.fetch key s t = f at hsubset hsome
  obtain ⟨_ | raw, c₁, t₁⟩ := f
  · exact ⟨hsubset, by simp, by simp⟩
  · obtain ⟨deadline, hmem, hlive⟩ := hsome raw rfl
    cases hloads : codec.loads raw with
    | none =>
      obtain ⟨hdeleted, hgone⟩ := c₁.guard_delete cleanup t₁ [key] () ()
      simp only [hloads]
      refine ⟨fun e he => hsubset (hdeleted he), by simp, fun _ => ⟨by trivial, fun ho e he => ?_⟩⟩
      simpa using (hgone ho e he).1
    | some value =>
      simp only [hloads]
      refine ⟨hsubset, fun v hv => ⟨deadline, raw, hmem, hlive, hloads.trans (congrArg some hv)⟩, by simp [hloads]⟩

end Client

/-! ## Runs -/

/-- Numbers below ten, as one digit. -/
def digitCodec : Codec Nat where
  dumps n := if n < 10 then some [CodePoint.ofChar (Char.ofNat (48 + n))] else none
  loads text := ((List.range 10).find? fun n => text = [CodePoint.ofChar (Char.ofNat (48 + n))]).map some

def soon (now : ℚ) (delivery : Delivery) : Sending := ⟨now, now, delivery⟩

namespace Deployment

variable {d d' : Deployment} {tr o : List (CacheEvent V)}

theorem Inv.start (client : Nat → Client) : Inv codec g b defaultTtl { client := client } [] where
  holds _ he := absurd he List.not_mem_nil
  served earlier later now key value h := by simp at h

/-- After a step that serves nothing, the server holds nothing that the answer says is gone. -/
theorem Inv.snoc (h : Inv codec g b defaultTtl d tr) {e : CacheEvent V}
    (hserves : ∀ now key value, e ≠ .got now key (some value))
    (htable : ∀ x ∈ d'.table.entries, x ∈ d.table.entries ∧ e.forgets g b x.1 = false ∨
      Written codec g b defaultTtl (tr ++ [e]) x.1 x.2.1 x.2.2) : Inv codec g b defaultTtl d' (tr ++ [e]) := by
  refine ⟨fun x hx => ?_, fun earlier later now key value htr => ?_⟩
  · rcases htable x hx with ⟨hx, hkept⟩ | hx
    · exact (h.holds x hx).snoc hkept
    · exact hx
  · rcases snoc_eq_append_cons htr with ⟨-, he, -⟩ | ⟨l, -, rfl⟩
    · exact absurd he (hserves now key value)
    · exact h.served earlier l now key value rfl

/-- After a lookup everything on the server was there before. -/
theorem Inv.got (h : Inv codec g b defaultTtl d tr) {now : ℚ} {key : Text} {answer : Option V}
    (htable : d'.table.entries ⊆ d.table.entries)
    (hserved : ∀ value, answer = some value → ∃ deadline payload, Written codec g b defaultTtl tr key deadline payload ∧
      now < deadline ∧ codec.loads payload = some (some value)) :
    Inv codec g b defaultTtl d' (tr ++ [.got now key answer]) := by
  refine ⟨fun x hx => (h.holds x (htable hx)).snoc rfl, fun earlier later now' key' value htr => ?_⟩
  rcases snoc_eq_append_cons htr with ⟨-, he, rfl⟩ | ⟨l, -, rfl⟩
  · cases he
    exact hserved value rfl
  · exact h.served earlier l now' key' value rfl

theorem Inv.get (h : Inv codec g b defaultTtl d tr) {i : Nat} {key : Text} {s cleanup : Sending}
    (hs : d.step codec g b defaultTtl (i, .get key s cleanup) = some (d', o)) : Inv codec g b defaultTtl d' (tr ++ o) := by
  obtain ⟨hsubset, hserved, hcorrupt⟩ := Client.get_spec codec (d.client i) key s cleanup d.table
  simp only [step, Option.some.injEq, Prod.mk.injEq] at hs
  obtain ⟨rfl, rfl⟩ := hs
  split
  · next hc =>
    obtain ⟨hnone, hgone⟩ := hcorrupt hc
    have hremoved : Inv codec g b defaultTtl ⟨((d.client i).get codec key s cleanup d.table).2.2, d.client⟩
        (tr ++ [.removed key (((d.client i).fetch key s d.table).2.1.outcome cleanup)]) := by
      refine h.snoc (by simp) fun x hx => .inl ⟨hsubset hx, ?_⟩
      rw [CacheEvent.forgets, Bool.and_eq_false_imp]
      intro ho
      simpa using (hgone ho x hx).symm
    rw [← List.append_assoc, hnone]
    exact hremoved.got (fun _ hx => hx) (by simp)
  · rw [List.nil_append]
    refine h.got hsubset fun value hvalue => ?_
    obtain ⟨deadline, payload, hmem, hlive, hloads⟩ := hserved value hvalue
    exact ⟨deadline, payload, h.holds _ hmem, hlive, hloads⟩

theorem Inv.set (h : Inv codec g b defaultTtl d tr) {i : Nat} {key : Text} {value : V} {ttl : Option Int} {s : Sending}
    (hs : d.step codec g b defaultTtl (i, .set key value ttl s) = some (d', o)) :
    Inv codec g b defaultTtl d' (tr ++ o) := by
  simp only [step, Client.set, Option.some.injEq, Prod.mk.injEq] at hs
  cases hdumps : codec.dumps value with
  | none =>
    simp only [hdumps, Option.isSome_none, Bool.false_eq_true, if_false] at hs
    obtain ⟨rfl, rfl⟩ := hs
    rw [List.append_nil]
    exact ⟨h.holds, h.served⟩
  | some payload =>
    simp only [hdumps, Option.isSome_some, if_true] at hs
    obtain ⟨rfl, rfl⟩ := hs
    refine h.snoc (by simp) fun x hx => ?_
    simp only [((d.client i).guard_spec s d.table _ ()).1] at hx
    split at hx
    · next ho =>
      rcases List.mem_append.1 hx with hx | hx
      · obtain ⟨hx, hkey⟩ := List.mem_filter.1 hx
        refine .inl ⟨List.mem_of_mem_filter hx, ?_⟩
        rw [CacheEvent.forgets, Bool.and_eq_false_imp]
        intro _
        simpa using Ne.symm (by simpa using hkey)
      · rw [List.mem_singleton.1 hx]
        exact .inr ⟨tr, [], s.now, value, ttl, _, rfl, ho, rfl, hdumps, fun _ he => absurd he List.not_mem_nil⟩
    · next ho =>
      refine .inl ⟨hx, ?_⟩
      rw [CacheEvent.forgets, Bool.and_eq_false_imp]
      exact fun hanswered => absurd (Outcome.carriedOut_of_answered hanswered) ho

theorem Inv.delete (h : Inv codec g b defaultTtl d tr) {i : Nat} {key : Text} {s : Sending}
    (hs : d.step codec g b defaultTtl (i, .delete key s) = some (d', o)) : Inv codec g b defaultTtl d' (tr ++ o) := by
  obtain ⟨hsubset, hgone⟩ := (d.client i).guard_delete s d.table [key] () ()
  simp only [step, Client.delete, Option.some.injEq, Prod.mk.injEq] at hs
  obtain ⟨rfl, rfl⟩ := hs
  refine h.snoc (by simp) fun x hx => .inl ⟨hsubset hx, ?_⟩
  rw [CacheEvent.forgets, Bool.and_eq_false_imp]
  intro ho
  simpa using Ne.symm (by simpa using (hgone ho x hx).1)

theorem Inv.clear (h : Inv codec g b defaultTtl d tr) {i : Nat} {view : Option Text} {scanned : List Text} {s : Sending}
    (hs : d.step codec g b defaultTtl (i, .clear view scanned s) = some (d', o)) :
    Inv codec g b defaultTtl d' (tr ++ o) := by
  obtain ⟨hsubset, hgone⟩ := (d.client i).guard_delete s d.table scanned scanned.length 0
  simp only [step, Client.clear, Option.ite_none_right_eq_some, Option.some.injEq, Prod.mk.injEq] at hs
  obtain ⟨hscans, rfl, rfl⟩ := hs
  refine h.snoc (by simp) fun x hx => .inl ⟨hsubset hx, ?_⟩
  rw [CacheEvent.forgets, Bool.and_eq_false_imp]
  intro ho
  -- a key that matched and was there has been scanned, so it is gone
  obtain ⟨hkey, hlive⟩ := hgone ho x hx
  have hdelivery : s.delivery = .answered := by
    unfold Client.outcome at ho
    split at ho
    · cases hd : s.delivery with
      | answered => rfl
      | failed carriedOut => simp [hd, Outcome.answered] at ho
    · cases ho
  simp only [RedisCache.scans, hdelivery, ne_eq, not_true_eq_false, decide_false, Bool.false_or, Bool.and_eq_true,
    List.all_eq_true, Bool.or_eq_true, Bool.not_eq_true', decide_eq_true_eq] at hscans
  exact (hscans.2 x (List.mem_filter.2 ⟨hsubset hx, by simpa using hlive⟩)).resolve_right hkey

theorem Inv.step {x : Nat × CacheCall V} (h : Inv codec g b defaultTtl d tr)
    (hs : d.step codec g b defaultTtl x = some (d', o)) : Inv codec g b defaultTtl d' (tr ++ o) := by
  obtain ⟨i, call⟩ := x
  cases call with
  | get key s cleanup => exact h.get hs
  | set key value ttl s => exact h.set hs
  | delete key s => exact h.delete hs
  | clear view scanned s => exact h.clear hs

/-- Whatever fails, and whichever processes share the server, a served value was written for its key less than its
lifetime before, and nothing that a process was told since says that it is gone. -/
theorem served_was_written {client : Nat → Client} {calls : List (Nat × CacheCall V)}
    (hrun : runs (Deployment.step codec g b defaultTtl) { client := client } calls = some (d, tr))
    {earlier later : List (CacheEvent V)} {now : ℚ} {key : Text} {value : V}
    (hserved : tr = earlier ++ .got now key (some value) :: later) :
    ∃ before since written value' ttl o payload, earlier = before ++ .wrote written key value' ttl o :: since ∧
      o.carriedOut = true ∧ now < written + Client.lifetime defaultTtl ttl ∧ codec.dumps value' = some payload ∧
      codec.loads payload = some (some value) ∧ ∀ e ∈ since, e.forgets g b key = false := by
  have h : Inv codec g b defaultTtl d tr :=
    runs_inv (Inv codec g b defaultTtl) (fun _ _ _ _ _ h hs => h.step hs) (Inv.start client) hrun
  obtain ⟨deadline, payload, hwritten, hlive, hloads⟩ := h.served earlier later now key value hserved
  obtain ⟨before, since, written, value', ttl, o, hearlier, ho, rfl, hdumps, hsince⟩ := hwritten
  exact ⟨before, since, written, value', ttl, o, payload, hearlier, ho, hlive, hdumps, hloads, hsince⟩

/-- One process writes, another cannot delete, and a third is served the number. -/
def undeleted : List (Nat × CacheCall Nat) :=
  [(0, .set (Text.ofString "k") 7 (some 5) (soon 0 .answered)), (1, .delete (Text.ofString "k") (soon 1 (.failed false))),
    (2, .get (Text.ofString "k") (soon 3 .answered) (soon 3 .answered))]

theorem served_was_written_undeleted : ∃ d tr,
    runs (Deployment.step digitCodec prefixGlob loga 300) { client := fun _ => {} } undeleted = some (d, tr) ∧
      ∃ before since written value ttl o payload,
        tr.dropLast = before ++ .wrote written (Text.ofString "k") value ttl o :: since ∧ o.carriedOut = true ∧
          3 < written + Client.lifetime 300 ttl ∧ digitCodec.dumps value = some payload ∧
          digitCodec.loads payload = some (some 7) ∧
          ∀ e ∈ since, e.forgets prefixGlob loga (Text.ofString "k") = false := by
  have htrace : (runs (Deployment.step digitCodec prefixGlob loga 300) { client := fun _ => {} } undeleted).map Prod.snd =
      some [.wrote 0 (Text.ofString "k") 7 (some 5) (.sent .answered), .removed (Text.ofString "k") (.sent (.failed false)),
        .got 3 (Text.ofString "k") (some 7)] := by
    decide +kernel
  obtain ⟨⟨d, tr⟩, hrun, htr⟩ := Option.map_eq_some_iff.1 htrace
  change tr = _ at htr
  refine ⟨d, tr, hrun, served_was_written hrun (show tr = tr.dropLast ++ .got 3 (Text.ofString "k") (some 7) :: [] from ?_)⟩
  rw [htr]
  rfl

end Deployment

end LogAnalytics.Cache
