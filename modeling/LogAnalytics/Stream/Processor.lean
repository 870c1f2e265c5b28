import Mathlib.Data.Rat.Init
import LogAnalytics.Lib.Digits
import LogAnalytics.Exn
import LogAnalytics.Deduplication
import LogAnalytics.Validation.Issues
/-!
# The stream processor

`StreamProcessor` with the stages it was built from as a parameter (`Stages`): what parsing,
transforming and validating a message give is theirs to say. They may read the clock `τ`. The
store is any `StorageBackend`: `F` is what the file system does during one of its calls. A
method that may raise returns `Except Exn` beside the state, since what it changed before it
raised stays changed.
-/

namespace LogAnalytics

/-- A storage backend as its callers see it; what a call did before it raised stays done. -/
structure StorageBackend (E F σ : Type) where
  write : F → σ → List E → String → Except Exn Unit × σ
  flush : F → σ → Except Exn Unit × σ

/-- One rejection, as `dlq.record` is given it. -/
structure DeadLetter where
  raw : String
  reason : RejectReason
  stage : String
  detail : String
  source : String
  deriving DecidableEq, Repr

namespace Stream

inductive Message (R : Type) where
  | text (raw : String)
  | record (r : R)
  deriving DecidableEq

/-- What `handle` calls. `parseRecord` is there when the parser is a `StructuredParser`;
otherwise a decoded record goes to `jsonLineParser`. -/
structure Stages (R E K τ : Type) where
  parse : τ → String → Except Exn E
  parseRecord : Option (τ → R → Except Exn E)
  jsonLineParser : τ → R → Except Exn E
  transform : E → Except Exn E
  validate : τ → E → Except Exn ValidationResult
  key : E → Option K
  maskText : String → String
  strOf : R → String
  source : String

structure StreamStats where
  messages : Nat := 0
  parsed : Nat := 0
  valid : Nat := 0
  rejected : Nat := 0
  duplicates : Nat := 0
  written : Nat := 0
  flushes : Nat := 0
  lastFlushAt : ℚ

/-- The rolling view of recent events, bounded by `maxEvents`. -/
structure LiveWindow (E : Type) where
  maxEvents : Nat
  events : List E := []

/-- A full `deque` drops its oldest entry. -/
def LiveWindow.add {E : Type} (w : LiveWindow E) (e : E) : LiveWindow E :=
  { w with events := (w.events ++ [e]).drop (w.events.length + 1 - w.maxEvents) }

structure StreamProcessor (E K σ : Type) where
  buffer : List E := []
  flushSequence : Nat := 0
  stats : StreamStats
  deduplicator : Deduplicator K
  window : LiveWindow E
  /-- The rejections handed to the dead-letter queue, oldest first. -/
  dlq : List DeadLetter := []
  store : σ

variable {R E K τ F σ : Type}

namespace Stages

/-- The parse step of `handle`: by the message's type, then by the parser's. -/
def parseMessage (st : Stages R E K τ) (now : τ) : Message R → Except Exn E
  | .text raw => st.parse now raw
  | .record r =>
    match st.parseRecord with
    | some parseRecord => parseRecord now r
    | none => st.jsonLineParser now r

def raw (st : Stages R E K τ) : Message R → String
  | .text raw => raw
  | .record r => st.strOf r

end Stages

namespace StreamProcessor

/-- `_reject`: count, then file the masked message. `dlqRaises` is what recording raises. -/
def reject (st : Stages R E K τ) (dlqRaises : Option Exn) (p : StreamProcessor E K σ) (m : Message R)
    (reason : RejectReason) (stage detail : String) : Except Exn Unit × StreamProcessor E K σ :=
  let p := { p with stats := { p.stats with rejected := p.stats.rejected + 1 } }
  match dlqRaises with
  | some exn => (.error exn, p)
  | none =>
    let raw := ((st.maskText (st.raw m)).take 8192).toString
    (.ok (), { p with dlq := p.dlq ++ [⟨raw, reason, stage, detail, st.source⟩] })

/-- Process one message; the event when it was accepted. -/
def handle [DecidableEq K] (st : Stages R E K τ) (now : τ) (dlqRaises : Option Exn) (p : StreamProcessor E K σ)
    (m : Message R) : Except Exn (Option E) × StreamProcessor E K σ :=
  let p := { p with stats := { p.stats with messages := p.stats.messages + 1 } }
  match st.parseMessage now m with
  | .error exn =>
    let (r, p) := reject st dlqRaises p m .unparseable "parse" exn.msg
    (r.map (fun _ => none), p)
  | .ok event =>
    let p := { p with stats := { p.stats with parsed := p.stats.parsed + 1 } }
    match st.transform event with
    | .error exn =>
      let (r, p) := reject st dlqRaises p m .transformError "transform" exn.msg
      (r.map (fun _ => none), p)
    | .ok event =>
      match st.validate now event with
      | .error exn => (.error exn, p)
      | .ok outcome =>
        if outcome.valid = false then
          let (r, p) := reject st dlqRaises p m outcome.reason "validate" outcome.detail
          (r.map (fun _ => none), p)
        else
          let p := { p with stats := { p.stats with valid := p.stats.valid + 1 } }
          let (duplicate, d) := p.deduplicator.isDuplicate st.key event
          let p := { p with deduplicator := d }
          if duplicate then
            (.ok none, { p with stats := { p.stats with duplicates := p.stats.duplicates + 1 } })
          else
            (.ok (some event), { p with buffer := p.buffer ++ [event], window := p.window.add event })

/-- Flush on size or age, whichever comes first. -/
def shouldFlush (maxBatch : Nat) (flushInterval : ℚ) (monotonic : ℚ) (p : StreamProcessor E K σ) : Bool :=
  if p.buffer.isEmpty then false
  else if maxBatch ≤ p.buffer.length then true
  else decide (flushInterval ≤ monotonic - p.stats.lastFlushAt)

/-- What the process and the file system do during one `flush`. -/
structure FlushEnv (F : Type) where
  pid : Nat
  time : Nat
  monotonic : ℚ
  writeFs : F
  flushFs : F

/-- `f"{n:06d}"`. -/
def pad6 (n : Nat) : String := String.ofList (Lib.zeroPad 6 n)

/-- `f"stream-{os.getpid()}-{int(time.time())}-{sequence:06d}"`. -/
def runId (pid time sequence : Nat) : String :=
  "stream-" ++ toString pid ++ "-" ++ toString time ++ "-" ++ pad6 sequence

/-- Write the buffer; how many records were persisted. On failure the batch goes back. -/
def flush (b : StorageBackend E F σ) (env : FlushEnv F) (p : StreamProcessor E K σ) :
    Except Exn Nat × StreamProcessor E K σ :=
  if p.buffer.isEmpty then
    (.ok 0, { p with stats := { p.stats with lastFlushAt := env.monotonic } })
  else
    let batch := p.buffer
    let p := { p with buffer := [], flushSequence := p.flushSequence + 1 }
    let runId := runId env.pid env.time p.flushSequence
    let (written, store) := b.write env.writeFs p.store batch runId
    let p := { p with store := store }
    match written with
    | .error exn => (.error exn, { p with buffer := batch ++ p.buffer })
    | .ok () =>
      let (flushed, store) := b.flush env.flushFs p.store
      let p := { p with store := store }
      match flushed with
      | .error exn => (.error exn, { p with buffer := batch ++ p.buffer })
      | .ok () =>
        (.ok batch.length, { p with stats := { p.stats with
          written := p.stats.written + batch.length
          flushes := p.stats.flushes + 1
          lastFlushAt := env.monotonic } })

/-- What happens around one `handle` call. -/
structure HandleEnv (τ : Type) where
  now : τ
  dlqRaises : Option Exn := none

/-- Handle a batch and flush it. -/
def processBatch [DecidableEq K] (st : Stages R E K τ) (b : StorageBackend E F σ) (fenv : FlushEnv F) :
    StreamProcessor E K σ → List (Message R × HandleEnv τ) → Except Exn Nat × StreamProcessor E K σ
  | p, [] => flush b fenv p
  | p, (m, env) :: rest =>
    match handle st env.now env.dlqRaises p m with
    | (.error exn, p) => (.error exn, p)
    | (.ok _, p) => processBatch st b fenv p rest

/-- What happens around one message of `run`. -/
structure RunEnv (τ F : Type) where
  /-- The stop event is set when the message arrives. -/
  stopping : Bool := false
  handle : HandleEnv τ
  monotonic : ℚ
  flush : FlushEnv F

/-- The `for` loop of `run`, with the states it passes through. -/
def runLoop [DecidableEq K] (st : Stages R E K τ) (b : StorageBackend E F σ) (maxBatch : Nat) (flushInterval : ℚ) :
    StreamProcessor E K σ → List (Message R × RunEnv τ F) →
      Except Exn Unit × StreamProcessor E K σ × List (StreamProcessor E K σ)
  | p, [] => (.ok (), p, [])
  | p, (m, env) :: rest =>
    if env.stopping then (.ok (), p, [])
    else
      match handle st env.handle.now env.handle.dlqRaises p m with
      | (.error exn, p) => (.error exn, p, [p])
      | (.ok _, p) =>
        if shouldFlush maxBatch flushInterval env.monotonic p then
          match flush b env.flush p with
          | (.error exn, q) => (.error exn, q, [p, q])
          | (.ok _, q) =>
            let (r, s, visited) := runLoop st b maxBatch flushInterval q rest
            (r, s, p :: q :: visited)
        else
          let (r, s, visited) := runLoop st b maxBatch flushInterval p rest
          (r, s, p :: visited)

/-- Consume until the messages end or a stop; always drain. An error of the last flush
replaces one of the loop. A source that raises leaves the state as one that ends. -/
def run [DecidableEq K] (st : Stages R E K τ) (b : StorageBackend E F σ) (maxBatch : Nat) (flushInterval : ℚ)
    (last : FlushEnv F) (p : StreamProcessor E K σ) (messages : List (Message R × RunEnv τ F)) :
    Except Exn StreamStats × StreamProcessor E K σ × List (StreamProcessor E K σ) :=
  let (r, q, visited) := runLoop st b maxBatch flushInterval p messages
  match flush b last q with
  | (.error exn, q) => (.error exn, q, visited ++ [q])
  | (.ok _, q) => (r.map (fun _ => q.stats), q, visited ++ [q])

/-- A processor as `__init__` leaves it at the clock reading `monotonic`. -/
def new (monotonic : ℚ) (d : Deduplicator K) (w : LiveWindow E) (store : σ) : StreamProcessor E K σ :=
  { stats := { lastFlushAt := monotonic }, deduplicator := d, window := w, store := store }

end StreamProcessor

end Stream

end LogAnalytics
