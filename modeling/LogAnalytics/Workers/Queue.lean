import Mathlib.Data.Rat.Defs
import Mathlib.Logic.Function.Basic
import LogAnalytics.Lib.Runs
import LogAnalytics.Models.Enums
/-!
# The job queue

`JobQueue` as a step relation over everything that runs at once: the threads that call
`submit`, `cancel` and `shutdown`, and the workers of the executor. A step is what one thread
does between two points where another can come in; the lock is held from the registration of a
job to the end of the pruning, and the workers never take it. The executor is a
`ThreadPoolExecutor`: its `submit` raises after its `shutdown`, a queued future can be
cancelled or taken, not both.
-/

namespace LogAnalytics.Workers

/-- Sixteen hexadecimal digits of a `uuid4`. -/
abbrev JobId := Nat

/-- A call of `submit`, `cancel` or `shutdown`. -/
abbrev CallId := Nat

variable {R : Type}

structure Job (R : Type) where
  name : String
  status : JobStatus := .pending
  createdAt : Nat
  startedAt : Option Nat := none
  finishedAt : Option Nat := none
  attempts : Nat := 0
  maxRetries : Nat
  result : Option R := none
  error : Option String := none
  progress : ℚ := 0
  /-- `_future` is set. -/
  hasFuture : Bool := false

inductive FutureState where
  | queued | running | cancelled | finished
  deriving DecidableEq

/-- How far a worker is with the job. -/
inductive Worker where
  | idle
  /-- `set_running_or_notify_cancel` has succeeded, `_run` has not begun. -/
  | taken
  /-- At the head of the loop. -/
  | ready (attempt : Nat)
  /-- Inside the handler. -/
  | attempting (attempt : Nat)
  | done
  deriving DecidableEq

/-- A job, with the future and the worker behind it. -/
structure Task (R : Type) where
  job : Job R
  future : Option FutureState := none
  worker : Worker := .idle

/-! ## The worker -/

inductive Work (R : Type) where
  | take
  | start (now : Nat)
  | attempt
  | succeed (result : R) (now : Nat)
  | fail (error : String) (now : Nat)

/-- `_run`, one step at a time. The future is settled with the last status. -/
def Task.work (t : Task R) : Work R → Option (Task R)
  | .take => if t.future = some .queued then some { t with future := some .running, worker := .taken } else none
  | .start now =>
    match t.worker with
    | .taken => some { t with job := { t.job with status := .running, startedAt := some now }, worker := .ready 1 }
    | _ => none
  | .attempt =>
    match t.worker with
    | .ready attempt =>
      if attempt < t.job.maxRetries + 2 then
        some { t with job := { t.job with attempts := attempt }, worker := .attempting attempt }
      else some { t with future := some .finished, worker := .done }
    | _ => none
  | .succeed result now =>
    match t.worker with
    | .attempting _ =>
      some { t with
        job := { t.job with status := .succeeded, finishedAt := some now, progress := 1, result := some result }
        future := some .finished
        worker := .done }
    | _ => none
  | .fail error now =>
    match t.worker with
    | .attempting attempt =>
      if t.job.maxRetries < attempt then
        some { t with
          job := { t.job with status := .failed, finishedAt := some now, error := some error }
          future := some .finished
          worker := .done }
      else some { t with job := { t.job with status := .retrying }, worker := .ready (attempt + 1) }
    | _ => none

/-! ## The calls -/

inductive SubmitError where
  /-- `JobError`: the job queue is shutting down. -/
  | shuttingDown
  /-- `JobError`: unknown job. -/
  | unknownJob (name : String)
  /-- `RuntimeError` of the executor: cannot schedule new futures after shutdown. -/
  | cannotSchedule
  deriving DecidableEq

/-- How far a call is. -/
inductive Call where
  | idle
  /-- `submit` is past its checks. -/
  | admitted (name : String) (maxRetries : Nat)
  /-- It holds the lock, and `_prune` has these jobs of the pass still to look at. -/
  | pruning (id : JobId) (rest : List JobId)
  /-- It has released the lock. -/
  | pruned (id : JobId)
  /-- The executor has the job. -/
  | accepted (id : JobId)
  | returned (id : JobId)
  | raised (error : SubmitError)
  /-- `cancel` has got the job. -/
  | found (id : JobId)
  /-- `future.cancel()` has returned true. -/
  | won (id : JobId)
  | answered (cancelled : Bool)
  /-- `shutdown` has set the flag. -/
  | closing
  | closed
  deriving DecidableEq

structure JobQueue (R : Type) where
  handlers : List String
  maxHistory : Nat
  defaultMaxRetries : Nat
  /-- `_shutdown` -/
  down : Bool := false
  /-- The executor has been shut down. -/
  closed : Bool := false
  lock : Option CallId := none
  /-- The keys of `_jobs`, oldest first. -/
  jobs : List JobId := []
  task : JobId → Option (Task R) := fun _ => none
  call : CallId → Call := fun _ => .idle

inductive Action (R : Type) where
  | work (id : JobId) (work : Work R)
  /-- The checks of `submit`. -/
  | submit (call : CallId) (name : String) (maxRetries : Option Nat)
  | register (call : CallId) (id : JobId) (now : Nat)
  /-- `_prune` looks at the next job, or ends its pass. -/
  | look (call : CallId)
  /-- `self._executor.submit` -/
  | enqueue (call : CallId)
  /-- `job._future = …` and the return. -/
  | keep (call : CallId)
  /-- `cancel` looks the job up. -/
  | find (call : CallId) (id : JobId)
  /-- `job._future.cancel()` -/
  | cancel (call : CallId)
  /-- `job.status = JobStatus.CANCELLED` -/
  | mark (call : CallId) (now : Nat)
  /-- `self._shutdown = True` -/
  | shutdown (call : CallId)
  /-- `self._executor.shutdown` -/
  | close (call : CallId)

inductive Obs where
  /-- `_prune` has read a status. -/
  | looked (call : CallId) (id : JobId) (status : JobStatus)
  /-- `_prune` has returned. -/
  | pruned (call : CallId)
  | returned (call : CallId) (id : JobId)
  | raised (call : CallId) (error : SubmitError)
  deriving DecidableEq

namespace JobQueue

def create (handlers : List String) (maxHistory defaultMaxRetries : Nat) : JobQueue R where
  handlers := handlers
  maxHistory := max 10 maxHistory
  defaultMaxRetries := defaultMaxRetries

def moveTo (q : JobQueue R) (call : CallId) (c : Call) : JobQueue R := { q with call := Function.update q.call call c }

def put (q : JobQueue R) (id : JobId) (t : Task R) : JobQueue R := { q with task := Function.update q.task id (some t) }

def raise (q : JobQueue R) (call : CallId) (error : SubmitError) : JobQueue R × List Obs :=
  (q.moveTo call (.raised error), [.raised call error])

/-- `_prune` has returned and the lock is free. -/
def release (q : JobQueue R) (call : CallId) (id : JobId) : JobQueue R × List Obs :=
  ({ q with lock := none }.moveTo call (.pruned id), [.pruned call])

/-- The head of the `while` in `_prune`. -/
def nextPass (q : JobQueue R) (call : CallId) (id : JobId) : JobQueue R × List Obs :=
  if q.maxHistory < q.jobs.length then (q.moveTo call (.pruning id q.jobs), []) else q.release call id

/-- One iteration of the `for` in `_prune`, which returns when nothing terminal was found. -/
def look (q : JobQueue R) (call : CallId) (id : JobId) : List JobId → Option (JobQueue R × List Obs)
  | [] => some (q.release call id)
  | x :: rest =>
    (q.task x).map fun t =>
      if t.job.status.isTerminal then
        let r := { q with jobs := q.jobs.erase x }.nextPass call id
        (r.1, .looked call x t.job.status :: r.2)
      else (q.moveTo call (.pruning id rest), [.looked call x t.job.status])

/-- `future.cancel()`: a future that is running or finished cannot be cancelled. -/
def cancelFuture (q : JobQueue R) (call : CallId) (id : JobId) (t : Task R) : JobQueue R :=
  if t.job.hasFuture = false then q.moveTo call (.answered false)
  else
    match t.future with
    | some .queued => (q.put id { t with future := some .cancelled }).moveTo call (.won id)
    | some .cancelled => q.moveTo call (.won id)
    | _ => q.moveTo call (.answered false)

def step (q : JobQueue R) : Action R → Option (JobQueue R × List Obs)
  | .work id w => ((q.task id).bind (·.work w)).map fun t => (q.put id t, [])
  | .submit call name maxRetries =>
    if q.call call ≠ .idle then none
    else if q.down then some (q.raise call .shuttingDown)
    else if name ∉ q.handlers then some (q.raise call (.unknownJob name))
    else some (q.moveTo call (.admitted name (maxRetries.getD q.defaultMaxRetries)), [])
  | .register call id now =>
    match q.call call with
    | .admitted name maxRetries =>
      if q.lock = none ∧ (q.task id).isNone then
        let job : Job R := { name := name, createdAt := now, maxRetries := maxRetries }
        some (({ q with lock := some call, jobs := q.jobs ++ [id] }.put id { job := job }).nextPass call id)
      else none
    | _ => none
  | .look call =>
    match q.call call with
    | .pruning id rest => q.look call id rest
    | _ => none
  | .enqueue call =>
    match q.call call with
    | .pruned id =>
      if q.closed then some (q.raise call .cannotSchedule)
      else (q.task id).map fun t => ((q.put id { t with future := some .queued }).moveTo call (.accepted id), [])
    | _ => none
  | .keep call =>
    match q.call call with
    | .accepted id =>
      (q.task id).map fun t =>
        ((q.put id { t with job := { t.job with hasFuture := true } }).moveTo call (.returned id), [.returned call id])
    | _ => none
  | .find call id =>
    if q.call call = .idle ∧ q.lock = none then
      some (q.moveTo call (if id ∈ q.jobs then .found id else .answered false), [])
    else none
  | .cancel call =>
    match q.call call with
    | .found id => (q.task id).map fun t => (q.cancelFuture call id t, [])
    | _ => none
  | .mark call now =>
    match q.call call with
    | .won id =>
      (q.task id).map fun t =>
        ((q.put id { t with job := { t.job with status := .cancelled, finishedAt := some now } }).moveTo call
          (.answered true), [])
    | _ => none
  | .shutdown call => if q.call call = .idle then some ({ q with down := true }.moveTo call .closing, []) else none
  | .close call => if q.call call = .closing then some ({ q with closed := true }.moveTo call .closed, []) else none

/-! ## What a step does -/

/-- The steps one by one, with their guards. -/
inductive Steps (q : JobQueue R) : Action R → JobQueue R → List Obs → Prop
  | work {id : JobId} {w : Work R} {t t' : Task R} : q.task id = some t → t.work w = some t' →
      Steps q (.work id w) (q.put id t') []
  | refuse {call : CallId} {name : String} {maxRetries : Option Nat} {error : SubmitError} : q.call call = .idle →
      Steps q (.submit call name maxRetries) (q.raise call error).1 (q.raise call error).2
  | accept {call : CallId} {name : String} {maxRetries : Option Nat} : q.call call = .idle → q.down = false →
      Steps q (.submit call name maxRetries)
        (q.moveTo call (.admitted name (maxRetries.getD q.defaultMaxRetries))) []
  | register {call : CallId} {id : JobId} {name : String} {maxRetries now : Nat} {r : JobQueue R × List Obs} :
      q.call call = .admitted name maxRetries → q.lock = none → q.task id = none →
      ({ q with lock := some call, jobs := q.jobs ++ [id] }.put id
        { job := { name := name, createdAt := now, maxRetries := maxRetries } }).nextPass call id = r →
      Steps q (.register call id now) r.1 r.2
  | release {call : CallId} {id : JobId} : q.call call = .pruning id [] →
      Steps q (.look call) (q.release call id).1 (q.release call id).2
  | evict {call : CallId} {id x : JobId} {rest : List JobId} {t : Task R} {r : JobQueue R × List Obs} :
      q.call call = .pruning id (x :: rest) → q.task x = some t → t.job.status.isTerminal = true →
      { q with jobs := q.jobs.erase x }.nextPass call id = r →
      Steps q (.look call) r.1 (.looked call x t.job.status :: r.2)
  | pass {call : CallId} {id x : JobId} {rest : List JobId} {t : Task R} :
      q.call call = .pruning id (x :: rest) → q.task x = some t → t.job.status.isTerminal = false →
      Steps q (.look call) (q.moveTo call (.pruning id rest)) [.looked call x t.job.status]
  | reject {call : CallId} {id : JobId} : q.call call = .pruned id → q.closed = true →
      Steps q (.enqueue call) (q.raise call .cannotSchedule).1 (q.raise call .cannotSchedule).2
  | enqueue {call : CallId} {id : JobId} {t : Task R} : q.call call = .pruned id → q.closed = false →
      q.task id = some t →
      Steps q (.enqueue call) ((q.put id { t with future := some .queued }).moveTo call (.accepted id)) []
  | keep {call : CallId} {id : JobId} {t : Task R} : q.call call = .accepted id → q.task id = some t →
      Steps q (.keep call)
        ((q.put id { t with job := { t.job with hasFuture := true } }).moveTo call (.returned id)) [.returned call id]
  | find {call : CallId} {id : JobId} : q.call call = .idle → id ∈ q.jobs →
      Steps q (.find call id) (q.moveTo call (.found id)) []
  | miss {call : CallId} {id : JobId} : q.call call = .idle → Steps q (.find call id) (q.moveTo call (.answered false)) []
  | cancel {call : CallId} {id : JobId} {t : Task R} : q.call call = .found id → q.task id = some t →
      t.future = some .queued →
      Steps q (.cancel call) ((q.put id { t with future := some .cancelled }).moveTo call (.won id)) []
  | cancelAgain {call : CallId} {id : JobId} {t : Task R} : q.call call = .found id → q.task id = some t →
      t.future = some .cancelled → Steps q (.cancel call) (q.moveTo call (.won id)) []
  | late {call : CallId} {id : JobId} : q.call call = .found id →
      Steps q (.cancel call) (q.moveTo call (.answered false)) []
  | mark {call : CallId} {id : JobId} {now : Nat} {t : Task R} : q.call call = .won id → q.task id = some t →
      Steps q (.mark call now)
        ((q.put id { t with job := { t.job with status := .cancelled, finishedAt := some now } }).moveTo call
          (.answered true)) []
  | shutdown {call : CallId} : q.call call = .idle →
      Steps q (.shutdown call) ({ q with down := true }.moveTo call .closing) []
  | close {call : CallId} : q.call call = .closing →
      Steps q (.close call) ({ q with closed := true }.moveTo call .closed) []

theorem look_steps {q q' : JobQueue R} {call : CallId} {id : JobId} {rest : List JobId} {o : List Obs}
    (hc : q.call call = .pruning id rest) (h : q.look call id rest = some (q', o)) : Steps q (.look call) q' o := by
  cases rest with
  | nil =>
    cases h
    exact .release hc
  | cons x rest =>
    simp only [look, Option.map_eq_some_iff] at h
    obtain ⟨t, ht, h⟩ := h
    split at h
    · next hterminal =>
      cases h
      exact .evict hc ht hterminal rfl
    · next hterminal =>
      cases h
      exact .pass hc ht (by simpa using hterminal)

theorem cancel_steps {q : JobQueue R} {call : CallId} {id : JobId} {t : Task R} (hc : q.call call = .found id)
    (ht : q.task id = some t) : Steps q (.cancel call) (q.cancelFuture call id t) [] := by
  unfold cancelFuture
  split
  · exact .late hc
  · split
    · next hf => exact .cancel hc ht hf
    · next hf => exact .cancelAgain hc ht hf
    · exact .late hc

theorem step_steps {q q' : JobQueue R} {x : Action R} {o : List Obs} (h : q.step x = some (q', o)) :
    Steps q x q' o := by
  cases x with
  | work id w =>
    simp only [step, Option.map_eq_some_iff, Option.bind_eq_some_iff] at h
    obtain ⟨t', ⟨t, ht, hw⟩, h⟩ := h
    cases h
    exact .work ht hw
  | submit call name maxRetries =>
    simp only [step] at h
    split at h
    · cases h
    · next hidle =>
      split at h
      · cases h
        exact .refuse (not_not.1 hidle)
      · next hdown =>
        split at h
        · cases h
          exact .refuse (not_not.1 hidle)
        · cases h
          exact .accept (not_not.1 hidle) (by simpa using hdown)
  | register call id now =>
    simp only [step] at h
    split at h
    · next hc =>
      simp only [Option.ite_none_right_eq_some, Option.some.injEq] at h
      obtain ⟨⟨hlock, hnew⟩, h⟩ := h
      have hregister : Steps q (.register call id now) _ _ :=
        .register hc hlock (Option.isNone_iff_eq_none.1 hnew) rfl
      simpa only [h] using hregister
    · cases h
  | look call =>
    simp only [step] at h
    split at h
    · next hc => exact look_steps hc h
    · cases h
  | enqueue call =>
    simp only [step] at h
    split at h
    · next hc =>
      split at h
      · next hclosed =>
        cases h
        exact .reject hc hclosed
      · next hopen =>
        obtain ⟨t, ht, h⟩ := Option.map_eq_some_iff.1 h
        cases h
        exact .enqueue hc (by simpa using hopen) ht
    · cases h
  | keep call =>
    simp only [step] at h
    split at h
    · next hc =>
      obtain ⟨t, ht, h⟩ := Option.map_eq_some_iff.1 h
      cases h
      exact .keep hc ht
    · cases h
  | find call id =>
    simp only [step, Option.ite_none_right_eq_some, Option.some.injEq, Prod.mk.injEq] at h
    obtain ⟨⟨hidle, -⟩, rfl, rfl⟩ := h
    split
    · next hin => exact .find hidle hin
    · exact .miss hidle
  | cancel call =>
    simp only [step] at h
    split at h
    · next hc =>
      obtain ⟨t, ht, h⟩ := Option.map_eq_some_iff.1 h
      cases h
      exact cancel_steps hc ht
    · cases h
  | mark call now =>
    simp only [step] at h
    split at h
    · next hc =>
      obtain ⟨t, ht, h⟩ := Option.map_eq_some_iff.1 h
      cases h
      exact .mark hc ht
    · cases h
  | shutdown call =>
    simp only [step, Option.ite_none_right_eq_some, Option.some.injEq, Prod.mk.injEq] at h
    obtain ⟨hidle, rfl, rfl⟩ := h
    exact .shutdown hidle
  | close call =>
    simp only [step, Option.ite_none_right_eq_some, Option.some.injEq, Prod.mk.injEq] at h
    obtain ⟨hclosing, rfl, rfl⟩ := h
    exact .close hclosing

end JobQueue

end LogAnalytics.Workers
