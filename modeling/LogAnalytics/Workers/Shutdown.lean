import LogAnalytics.Workers.Pruning
/-!
# Submitting while the queue shuts down

`submit` looks at the flag first and calls the executor last, outside the lock. If the executor
is shut down in between, the call raises with its job registered, and pruning may have taken
another job's place. As long as that does not happen, a call that raises has changed nothing and
every job that waits has a future behind it.
-/
open LogAnalytics.Lib

namespace LogAnalytics.Workers

variable {R : Type}

/-- Between the checks of `submit` and its call of the executor. -/
def Call.submitting : Call → Bool
  | .admitted .. | .pruning .. | .pruned _ => true
  | _ => false

/-- The job a `submit` has registered and not yet given its future. -/
def Call.handling : Call → Option JobId
  | .pruning id _ => some id
  | .pruned id => some id
  | .accepted id => some id
  | _ => none

/-- A `submit` that has registered its job and not failed. -/
def Call.registered : Call → Bool
  | .pruning .. | .pruned _ | .accepted _ | .returned _ => true
  | _ => false

/-- The call that takes the step; a worker is none. -/
def Action.caller : Action R → Option CallId
  | .work .. => none
  | .submit call .. | .register call .. | .look call | .enqueue call | .keep call | .find call _ | .cancel call
  | .mark call _ | .shutdown call | .close call => some call

namespace JobQueue

/-- The executor is not shut down while a call is between its checks and the executor. -/
def SparesSubmits (q : JobQueue R) (x : Action R) : Prop :=
  ∀ call, x = .close call → ∀ c, (q.call c).submitting = false

/-- The executor still has the job: it is queued, a worker is about to start it, or a client that
has cancelled it is about to say so. -/
def Behind (q : JobQueue R) (id : JobId) (t : Task R) : Prop :=
  t.job.hasFuture = true ∧
    (t.future = some .queued ∨ t.future = some .running ∧ t.worker = .taken ∨
      t.future = some .cancelled ∧ ∃ call, q.call call = .won id)

/-- What holds as long as no shutdown cuts a `submit` in two. -/
structure Backed (q : JobQueue R) : Prop where
  admits : q.closed = true → ∀ call, (q.call call).submitting = false
  flagged : q.closed = true → q.down = true
  closing : ∀ call, q.call call = .closing → q.down = true
  unkept : ∀ id t, q.task id = some t → t.job.hasFuture = false → ∃ call, (q.call call).handling = some id
  unplaced : ∀ id t, q.task id = some t → t.future = none → ∃ call, (q.call call).placing = some id
  cancelled : ∀ id t, q.task id = some t → t.future = some .cancelled → t.job.status = .pending →
    ∃ call, q.call call = .won id

theorem backed_create (handlers : List String) (maxHistory defaultMaxRetries : Nat) :
    Backed (create handlers maxHistory defaultMaxRetries : JobQueue R) where
  admits _ _ := rfl
  flagged h := by cases h
  closing _ h := by cases h
  unkept _ _ h := by cases h
  unplaced _ _ h := by cases h
  cancelled _ _ h := by cases h

/-- The lock and the list of tracked jobs do not matter. -/
theorem Backed.relock {q : JobQueue R} (hb : Backed q) (lock : Option CallId) (jobs : List JobId) :
    Backed { q with lock := lock, jobs := jobs } :=
  ⟨hb.admits, hb.flagged, hb.closing, hb.unkept, hb.unplaced, hb.cancelled⟩

/-- A call moves on and lets go only of what it need not hold any more. -/
theorem Backed.move {q : JobQueue R} (hb : Backed q) (call : CallId) {c : Call}
    (hs : q.closed = true → c.submitting = false) (hc : c = .closing → q.down = true)
    (hh : ∀ id, (q.call call).handling = some id → c.handling = some id ∨ ∀ t ∈ q.task id, t.job.hasFuture = true)
    (hp : ∀ id, (q.call call).placing = some id → c.placing = some id ∨ ∀ t ∈ q.task id, t.future ≠ none)
    (hw : ∀ id, q.call call = .won id → c = .won id ∨ ∀ t ∈ q.task id, t.job.status ≠ .pending) :
    Backed (q.moveTo call c) := by
  -- Whatever holds of some call still holds of it, unless it is the one that moves.
  have hstill : ∀ {P : Call → Prop}, (∃ call', P (q.call call')) → (P (q.call call) → P c) →
      ∃ call', P ((q.moveTo call c).call call') := by
    rintro P ⟨call', h⟩ hmove
    rcases eq_or_ne call' call with rfl | hne
    · exact ⟨call', by rw [moveTo_call_self]; exact hmove h⟩
    · exact ⟨call', by rwa [moveTo_call_ne q hne]⟩
  constructor
  · intro hclosed call'
    rcases eq_or_ne call' call with rfl | hne
    · rw [moveTo_call_self]; exact hs hclosed
    · rw [moveTo_call_ne q hne]; exact hb.admits hclosed call'
  · exact hb.flagged
  · intro call' h
    rcases eq_or_ne call' call with rfl | hne
    · rw [moveTo_call_self] at h; exact hc h
    · rw [moveTo_call_ne q hne] at h; exact hb.closing call' h
  · intro id t ht hk
    refine hstill (P := fun c => c.handling = some id) (hb.unkept id t ht hk) fun h => ?_
    refine (hh id h).resolve_right fun hall => ?_
    rw [hall t ht] at hk
    cases hk
  · intro id t ht hn
    exact hstill (P := fun c => c.placing = some id) (hb.unplaced id t ht hn) fun h =>
      (hp id h).resolve_right fun hall => hall t ht hn
  · intro id t ht hf hst
    exact hstill (P := fun c => c = .won id) (hb.cancelled id t ht hf hst) fun h =>
      (hw id h).resolve_right fun hall => hall t ht hst

/-- A job changes and needs nobody it did not need before. -/
theorem Backed.put {q : JobQueue R} (hb : Backed q) {id : JobId} {t t' : Task R} (ht : q.task id = some t)
    (hk : t'.job.hasFuture = false → t.job.hasFuture = false) (hn : t'.future = none → t.future = none)
    (hc : t'.future = some .cancelled → t'.job.status = .pending →
      t.future = some .cancelled ∧ t.job.status = .pending ∨ ∃ call, q.call call = .won id) : Backed (q.put id t') := by
  refine ⟨hb.admits, hb.flagged, hb.closing, fun i u hu => ?_, fun i u hu => ?_, fun i u hu => ?_⟩ <;>
    rcases eq_or_ne i id with rfl | hne
  · rw [put_task_self] at hu
    cases hu
    exact fun h => hb.unkept i t ht (hk h)
  · rw [put_task_ne q hne] at hu
    exact hb.unkept i u hu
  · rw [put_task_self] at hu
    cases hu
    exact fun h => hb.unplaced i t ht (hn h)
  · rw [put_task_ne q hne] at hu
    exact hb.unplaced i u hu
  · rw [put_task_self] at hu
    cases hu
    intro hf hst
    rcases hc hf hst with h | h
    · exact hb.cancelled i t ht h.1 h.2
    · exact h
  · rw [put_task_ne q hne] at hu
    exact hb.cancelled i u hu

/-- A new job in the hands of a call. -/
theorem Backed.new {q : JobQueue R} (hb : Backed q) {id : JobId} {job : Job R}
    (hh : ∃ call, (q.call call).handling = some id) (hp : ∃ call, (q.call call).placing = some id) :
    Backed (q.put id { job := job }) := by
  refine ⟨hb.admits, hb.flagged, hb.closing, fun i u hu => ?_, fun i u hu => ?_, fun i u hu => ?_⟩ <;>
    rcases eq_or_ne i id with rfl | hne
  · exact fun _ => hh
  · rw [put_task_ne q hne] at hu
    exact hb.unkept i u hu
  · exact fun _ => hp
  · rw [put_task_ne q hne] at hu
    exact hb.unplaced i u hu
  · rw [put_task_self] at hu
    cases hu
    exact fun hf => by cases hf
  · rw [put_task_ne q hne] at hu
    exact hb.cancelled i u hu

/-- A call of `submit` that is past its checks keeps the executor open. -/
theorem Backed.open {q : JobQueue R} (hb : Backed q) (call : CallId) (h : (q.call call).submitting = true) :
    q.closed = false := by
  by_contra hclosed
  rw [hb.admits (by simpa using hclosed) call] at h
  cases h

/-- A call that holds nothing moves on. -/
theorem Backed.free {q : JobQueue R} (hb : Backed q) (call : CallId) {c : Call}
    (hs : q.closed = true → c.submitting = false) (hc : c = .closing → q.down = true)
    (hh : (q.call call).handling = none) (hp : (q.call call).placing = none) (hw : ∀ id, q.call call ≠ .won id) :
    Backed (q.moveTo call c) :=
  hb.move call hs hc (by simp [hh]) (by simp [hp]) fun id h => absurd h (hw id)

/-- The call goes on with the job it is placing. -/
theorem Backed.stay {q : JobQueue R} (hb : Backed q) {call : CallId} {c : Call} {id : JobId}
    (hcall : (q.call call).handling = some id ∧ (q.call call).placing = some id ∧ (q.call call).submitting = true)
    (hc : c.handling = some id ∧ c.placing = some id) (hn : c ≠ .closing) (hw : ∀ id, q.call call ≠ .won id) :
    Backed (q.moveTo call c) := by
  refine hb.move call (fun hclosed => ?_) (fun h => absurd h hn) (fun i h => .inl ?_) (fun i h => .inl ?_)
    fun i h => absurd h (hw i)
  · rw [hb.open call hcall.2.2] at hclosed
    cases hclosed
  · rw [hc.1, ← hcall.1, h]
  · rw [hc.2, ← hcall.2.1, h]

theorem Backed.register {q : JobQueue R} (hb : Backed q) {call : CallId} {id : JobId} {name : String}
    {maxRetries : Nat} (hc : q.call call = .admitted name maxRetries) (job : Job R) :
    Backed (({ q with lock := some call, jobs := q.jobs ++ [id] }.put id { job := job }).nextPass call id).1 := by
  have hopen : q.closed = false := hb.open call (by rw [hc]; rfl)
  have hmove : ∀ c : Call, c.handling = some id → c.placing = some id → c ≠ .closing →
      Backed ((q.moveTo call c).put id { job := job }) := by
    intro c hh hp hn
    refine Backed.new (hb.free call (by simp [hopen]) (fun h => absurd h hn) (by rw [hc]; rfl) (by rw [hc]; rfl)
      (by simp [hc])) ⟨call, by rwa [moveTo_call_self]⟩ ⟨call, by rwa [moveTo_call_self]⟩
  rcases nextPass_cases ({ q with lock := some call, jobs := q.jobs ++ [id] }.put id { job := job }) call id with
    ⟨-, h⟩ | ⟨-, h⟩ <;> rw [h]
  · exact (hmove _ rfl rfl (by simp)).relock (some call) (q.jobs ++ [id])
  · exact (hmove (.pruned id) rfl rfl (by simp)).relock none (q.jobs ++ [id])

/-- The worker keeps the job's future, and is not idle with one that nobody has taken. -/
theorem Backed.work {q : JobQueue R} (hb : Backed q) (hg : Good q) {id : JobId} {t t' : Task R} {w : Work R}
    (ht : q.task id = some t) (hw : t.work w = some t') : Backed (q.put id t') := by
  have hgood : t'.Good := ((hg.tasks id t ht).work hw).1
  refine hb.put ht (fun h => ?_) (fun h => ?_) fun h _ => ?_
  · rwa [Task.work_hasFuture hw] at h
  · exact absurd (hgood.of_none h).1 (Task.work_busy hw)
  · exact absurd (hgood.of_cancelled h).1 (Task.work_busy hw)

/-- A step keeps every waiting job backed, unless it cuts a `submit` in two. -/
theorem Steps.backed {q q' : JobQueue R} {x : Action R} {o : List Obs} (h : Steps q x q' o)
    (hok : SparesSubmits q x) (hg : Good q) (hb : Backed q) : Backed q' := by
  cases h with
  | work ht hw => exact hb.work hg ht hw
  | refuse hc => exact hb.free _ (fun _ => rfl) (by simp) (by rw [hc]; rfl) (by rw [hc]; rfl) (by simp [hc])
  | accept hc hd =>
    refine hb.free _ (fun hclosed => ?_) (by simp) (by rw [hc]; rfl) (by rw [hc]; rfl) (by simp [hc])
    rw [hb.flagged hclosed] at hd
    cases hd
  | register hc hl hn hr =>
    subst hr
    exact hb.register hc _
  | @release call id hc =>
    exact (hb.stay (c := .pruned id) (by simp [hc, Call.handling, Call.placing, Call.submitting]) ⟨rfl, rfl⟩ (by simp)
      (by simp [hc])).relock none q.jobs
  | @evict call id x rest t r hc ht hterminal hr =>
    have hmove : ∀ c : Call, c.handling = some id → c.placing = some id → c ≠ .closing → Backed (q.moveTo call c) :=
      fun c hh hp hn => hb.stay (by simp [hc, Call.handling, Call.placing, Call.submitting]) ⟨hh, hp⟩ hn (by simp [hc])
    subst hr
    rcases nextPass_cases { q with jobs := q.jobs.erase x } call id with ⟨-, h⟩ | ⟨-, h⟩ <;> rw [h]
    · exact (hmove _ rfl rfl (by simp)).relock q.lock (q.jobs.erase x)
    · exact (hmove (.pruned id) rfl rfl (by simp)).relock none (q.jobs.erase x)
  | @pass call id x rest t hc =>
    exact hb.stay (by rw [hc]; exact ⟨rfl, rfl, rfl⟩) ⟨rfl, rfl⟩ (by simp)
      (by simp [hc])
  | reject hc hclosed =>
    have hsub := hb.admits hclosed
    exact absurd (hsub _) (by rw [hc]; simp [Call.submitting])
  | @enqueue call id t hc ho ht =>
    have hput : Backed (q.put id { t with future := some .queued }) := hb.put ht (fun h => h) (by simp) (by simp)
    refine hput.move (c := .accepted id) call (fun _ => rfl) (by simp) (fun i h => .inl ?_) (fun i h => .inr ?_)
      (by simp [hc])
    · rw [put_call, hc] at h
      exact h
    · rw [put_call, hc] at h
      cases h
      simp
  | @keep call id t hc ht =>
    have hput : Backed (q.put id { t with job := { t.job with hasFuture := true } }) :=
      hb.put ht (by simp) (fun h => h) fun hf hst => .inl ⟨hf, hst⟩
    refine hput.move (c := .returned id) call (fun _ => rfl) (by simp) (fun i h => .inr ?_) (by simp [hc, Call.placing])
      (by simp [hc])
    rw [put_call, hc] at h
    cases h
    simp
  | find hc => exact hb.free _ (fun _ => rfl) (by simp) (by rw [hc]; rfl) (by rw [hc]; rfl) (by simp [hc])
  | miss hc => exact hb.free _ (fun _ => rfl) (by simp) (by rw [hc]; rfl) (by rw [hc]; rfl) (by simp [hc])
  | @cancel call id t hc ht hf =>
    -- The client has won before the future is cancelled: the order of the two does not show.
    refine Backed.put (q := q.moveTo call (.won id))
      (hb.free call (fun _ => rfl) (by simp) (by rw [hc]; rfl) (by rw [hc]; rfl) (by simp [hc])) ht (fun h => h) (by simp) ?_
    exact fun _ _ => .inr ⟨call, moveTo_call_self ..⟩
  | cancelAgain hc => exact hb.free _ (fun _ => rfl) (by simp) (by rw [hc]; rfl) (by rw [hc]; rfl) (by simp [hc])
  | late hc => exact hb.free _ (fun _ => rfl) (by simp) (by rw [hc]; rfl) (by rw [hc]; rfl) (by simp [hc])
  | @mark call id now t hc ht =>
    have hput : Backed (q.put id { t with job := { t.job with status := .cancelled, finishedAt := some now } }) :=
      hb.put ht (fun h => h) (fun h => h) (by simp)
    refine hput.move (c := .answered true) call (fun _ => rfl) (by simp) (by simp [hc, Call.handling])
      (by simp [hc, Call.placing]) (fun i h => .inr ?_)
    rw [put_call, hc] at h
    cases h
    simp
  | shutdown hc =>
    exact Backed.free (q := { q with down := true })
      ⟨hb.admits, fun _ => rfl, fun _ _ => rfl, hb.unkept, hb.unplaced, hb.cancelled⟩ _ (fun _ => rfl) (fun _ => rfl)
      (by simp [hc, Call.handling]) (by simp [hc, Call.placing]) (by simp [hc])
  | @close call hc =>
    refine Backed.free (q := { q with closed := true })
      ⟨fun _ => hok call rfl, fun _ => hb.closing call hc, hb.closing, hb.unkept, hb.unplaced, hb.cancelled⟩ _
      (fun _ => rfl) (by simp) (by simp [hc, Call.handling]) (by simp [hc, Call.placing]) (by simp [hc])

/-! ## The two halves of a submit -/

theorem registered_ne {q : JobQueue R} {call c : CallId} {phase : Call} (hr : (q.call c).registered = true)
    (hp : (q.call call).registered = true → phase.registered = true) :
    ((q.moveTo call phase).call c).registered = true := by
  rcases eq_or_ne c call with rfl | hne
  · rw [moveTo_call_self]
    exact hp hr
  · rwa [moveTo_call_ne q hne]

theorem nextPass_registered (q : JobQueue R) (call : CallId) (id : JobId) :
    ((q.nextPass call id).1.call call).registered = true := by
  rcases nextPass_cases q call id with ⟨-, h⟩ | ⟨-, h⟩ <;> rw [h] <;> simp [release, Call.registered]

theorem nextPass_registered_ne {q : JobQueue R} {c : CallId} (hr : (q.call c).registered = true) (call : CallId)
    (id : JobId) : ((q.nextPass call id).1.call c).registered = true := by
  rcases nextPass_cases q call id with ⟨-, h⟩ | ⟨-, h⟩ <;> rw [h]
  · exact registered_ne hr fun _ => rfl
  · exact registered_ne (q := { q with lock := none }) hr fun _ => rfl

/-- A call that has registered its job goes on to return it. -/
theorem Steps.registered {q q' : JobQueue R} {x : Action R} {o : List Obs} (h : Steps q x q' o) (hb : Backed q)
    {c : CallId} (hr : (q.call c).registered = true) : (q'.call c).registered = true := by
  cases h with
  | work => exact hr
  | register _ _ _ hq =>
    subst hq
    refine nextPass_registered_ne ?_ ..
    exact hr
  | @release call id => exact registered_ne (q := { q with lock := none }) hr fun _ => rfl
  | evict _ _ _ hq =>
    subst hq
    refine nextPass_registered_ne ?_ ..
    exact hr
  | pass => exact registered_ne hr fun _ => rfl
  | @reject call id hc hclosed => exact absurd (hb.admits hclosed call) (by rw [hc]; simp [Call.submitting])
  | enqueue => exact registered_ne (q := q) hr fun _ => rfl
  | keep => exact registered_ne (q := q) hr fun _ => rfl
  | refuse hc => exact registered_ne hr (by simp [hc, Call.registered])
  | accept hc => exact registered_ne hr (by simp [hc, Call.registered])
  | find hc => exact registered_ne hr (by simp [hc, Call.registered])
  | miss hc => exact registered_ne hr (by simp [hc, Call.registered])
  | cancel hc => exact registered_ne (q := q) hr (by simp [hc, Call.registered])
  | cancelAgain hc => exact registered_ne hr (by simp [hc, Call.registered])
  | late hc => exact registered_ne hr (by simp [hc, Call.registered])
  | mark hc => exact registered_ne (q := q) hr (by simp [hc, Call.registered])
  | shutdown hc => exact registered_ne (q := q) hr (by simp [hc, Call.registered])
  | close hc => exact registered_ne (q := q) hr (by simp [hc, Call.registered])

/-- The tracked jobs change only in a call that has then registered its own. -/
theorem Steps.jobs {q q' : JobQueue R} {x : Action R} {o : List Obs} (h : Steps q x q' o) {c : CallId}
    (hc : x.caller = some c) : q'.jobs = q.jobs ∨ (q'.call c).registered = true := by
  cases h with
  | register _ _ _ hq =>
    cases hc
    subst hq
    exact .inr (nextPass_registered ..)
  | evict _ _ _ hq =>
    cases hc
    subst hq
    exact .inr (nextPass_registered ..)
  | _ => exact .inl rfl

/-! ## Runs -/

section

variable {handlers : List String} {maxHistory defaultMaxRetries : Nat} {xs : List (Action R)} {q : JobQueue R}
  {tr : List Obs}

theorem backed_runs {r : JobQueue R} {ys : List (Action R)} {o : List Obs} (hg : Good q) (hb : Backed q)
    (hok : Throughout SparesSubmits step q ys) (h : runs step q ys = some (r, o)) : Good r ∧ Backed r := by
  refine runs_inv_of SparesSubmits (fun q _ => Good q ∧ Backed q) ?_ ys q r [] o ⟨hg, hb⟩ hok h
  intro s x s' o tr hI hok hs
  have hsteps := step_steps hs
  exact ⟨hsteps.good hI.1, hsteps.backed hok hI.1 hI.2⟩

theorem registered_runs {r : JobQueue R} {ys : List (Action R)} {o : List Obs} (hg : Good q) (hb : Backed q)
    (hok : Throughout SparesSubmits step q ys) (h : runs step q ys = some (r, o)) {c : CallId}
    (hr : (q.call c).registered = true) : (r.call c).registered = true := by
  refine (runs_inv_of SparesSubmits
    (fun q _ => (Good q ∧ Backed q) ∧ (q.call c).registered = true) ?_ ys q r [] o ⟨⟨hg, hb⟩, hr⟩ hok h).2
  intro s x s' o tr hI hok hs
  have hsteps := step_steps hs
  exact ⟨⟨hsteps.good hI.1.1, hsteps.backed hok hI.1.1 hI.1.2⟩, hsteps.registered hI.1.2 hI.2⟩

/-- A job that waits and that no `submit` is handling has the executor behind it. -/
theorem Backed.behind {id : JobId} {t : Task R} (hb : Backed q) (hg : Good q) (ht : q.task id = some t)
    (hpending : t.job.status = .pending) (hnone : ∀ c, (q.call c).handling ≠ some id) : Behind q id t := by
  have hplaced : t.future ≠ none := by
    intro hf
    obtain ⟨c, hc⟩ := hb.unplaced id t ht hf
    refine hnone c ?_
    cases hcall : q.call c <;> simp_all [Call.placing, Call.handling]
  refine ⟨?_, ?_⟩
  · by_contra hk
    obtain ⟨c, hc⟩ := hb.unkept id t ht (by simpa using hk)
    exact hnone c hc
  · have hgood := hg.tasks id t ht
    cases hf : t.future with
    | none => exact absurd hf hplaced
    | some future =>
      cases future with
      | queued => exact .inl rfl
      | cancelled => exact .inr (.inr ⟨rfl, hb.cancelled id t ht hf hpending⟩)
      | running =>
        refine .inr (.inl ⟨rfl, ?_⟩)
        unfold Task.Good Task.Live at hgood
        split at hgood <;> simp_all
      | finished =>
        unfold Task.Good Task.Live at hgood
        split at hgood <;> simp_all

/-- If no shutdown of the executor comes between the checks of a `submit` and its call of the
executor, then no step of a call that raises changes the tracked jobs, and every tracked job
that waits has a future unless a `submit` is still at it. -/
theorem failed_submit_changes_nothing (h : runs step (create handlers maxHistory defaultMaxRetries) xs = some (q, tr))
    (hok : Throughout SparesSubmits step (create handlers maxHistory defaultMaxRetries) xs) :
    (∀ ys x zs r r' o o' call error, xs = ys ++ x :: zs →
      runs step (create handlers maxHistory defaultMaxRetries) ys = some (r, o) → step r x = some (r', o') →
      x.caller = some call → q.call call = .raised error → r'.jobs = r.jobs) ∧
    ∀ id ∈ q.jobs, ∀ t, q.task id = some t → t.job.status = .pending → (∀ call, (q.call call).handling ≠ some id) →
      Behind q id t := by
  have hg := good_create (R := R) handlers maxHistory defaultMaxRetries
  have hb := backed_create (R := R) handlers maxHistory defaultMaxRetries
  constructor
  · rintro ys x zs r r' o o' call error rfl hr hs hx hraised
    obtain ⟨r₁, o₁, os, hr₁, hrest, -⟩ := runs_append h
    rw [hr] at hr₁
    cases hr₁
    obtain ⟨hok₁, hok₂⟩ := throughout_append hok hr
    obtain ⟨hgr, hbr⟩ := backed_runs hg hb hok₁ hr
    obtain ⟨s, p, ps, hs', hzs, -⟩ := runs_cons hrest
    rw [hs] at hs'
    cases hs'
    have hsteps := step_steps hs
    refine (hsteps.jobs hx).resolve_right fun hregistered => ?_
    have hend := registered_runs (hsteps.good hgr) (hsteps.backed hok₂.1 hgr hbr) (hok₂.2 r' o' hs) hzs hregistered
    rw [hraised] at hend
    cases hend
  · intro id _ t ht hpending hnone
    obtain ⟨hgq, hbq⟩ := backed_runs hg hb hok h
    exact hbq.behind hgq ht hpending hnone

end

/-- A job is queued, the queue shuts down, and the next `submit` is refused. -/
def orderly : List (Action Unit) :=
  plainSubmit 0 0 ++ [.shutdown 1, .submit 2 "ingest" none, .close 1]

theorem orderly_spares : Throughout SparesSubmits step (create ["ingest"] 10 0) orderly := by
  refine throughout_cons rfl nofun <| throughout_cons rfl nofun <| throughout_cons rfl nofun <|
    throughout_cons rfl nofun <| throughout_cons rfl nofun <| throughout_cons rfl nofun <|
    throughout_cons rfl (fun _ _ call => ?_) trivial
  rcases call with _ | _ | _ | call <;> rfl

theorem failed_submit_changes_nothing_orderly : ∃ q tr t,
    runs step (create ["ingest"] 10 0) orderly = some (q, tr) ∧ q.call 2 = .raised .shuttingDown ∧
    q.task 0 = some t ∧ Behind q 0 t := by
  refine ⟨_, _, _, rfl, rfl, rfl, (failed_submit_changes_nothing (R := Unit) rfl orderly_spares).2 0 ?_ _ rfl rfl ?_⟩
  · exact List.mem_singleton.2 rfl
  · intro call
    rcases call with _ | _ | _ | call <;> nofun

/-! ## A shutdown in the middle -/

/-- The queue shuts down after the checks of a `submit`. -/
def cut : List (Action Unit) :=
  [.submit 0 "ingest" none, .shutdown 1, .close 1, .register 0 0 0, .enqueue 0]

/-- The call has raised, yet its job is tracked, waits, and no executor will ever run it. -/
theorem cut_submit_tracked : ∃ q tr t, runs step (create ["ingest"] 10 0 : JobQueue Unit) cut = some (q, tr) ∧
    q.call 0 = .raised .cannotSchedule ∧ q.jobs = [0] ∧ q.task 0 = some t ∧ t.job.status = .pending ∧
    t.future = none ∧ ∀ call, (q.call call).handling ≠ some 0 := by
  refine ⟨_, _, _, rfl, rfl, rfl, rfl, rfl, rfl, fun call => ?_⟩
  rcases call with _ | _ | call <;> nofun

end JobQueue

end LogAnalytics.Workers
