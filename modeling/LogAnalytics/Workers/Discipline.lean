import Mathlib.Data.List.Nodup
import LogAnalytics.Workers.Queue
/-!
# The life of a job

What one step can do to a job, and from it what holds of every job in every state: the
status moves one way, the attempts are counted, and pruning evicts only what is over.
-/
open LogAnalytics.Lib

namespace LogAnalytics

/-- The moves of a status. -/
inductive JobStatus.Moves : JobStatus → JobStatus → Prop
  | start : Moves .pending .running
  | cancel : Moves .pending .cancelled
  | retry : Moves .running .retrying
  | again : Moves .retrying .retrying
  | end {s s' : JobStatus} : s = .running ∨ s = .retrying → s' = .succeeded ∨ s' = .failed → Moves s s'

theorem JobStatus.Moves.not_terminal {s s' : JobStatus} (h : Moves s s') : s.isTerminal = false := by
  cases h with
  | start => rfl
  | cancel => rfl
  | retry => rfl
  | again => rfl
  | «end» hs => rcases hs with rfl | rfl <;> rfl

end LogAnalytics

namespace LogAnalytics.Workers

variable {R : Type}

namespace Task

/-- Between two attempts, or inside one. -/
def Live (t : Task R) : Prop :=
  t.future = some .running ∧ (t.job.status = .running ∨ t.job.status = .retrying)

/-- What is known of a job from how far its worker is. -/
def Good (t : Task R) : Prop :=
  match t.worker with
  | .idle =>
    t.job.attempts = 0 ∧ t.future ≠ some .running ∧ t.future ≠ some .finished ∧
      (t.job.status = .pending ∨ t.job.status = .cancelled ∧ t.future = some .cancelled)
  | .taken => t.job.attempts = 0 ∧ t.future = some .running ∧ t.job.status = .pending
  | .ready attempt => t.Live ∧ t.job.attempts + 1 = attempt ∧ attempt ≤ t.job.maxRetries + 1
  | .attempting attempt => t.Live ∧ t.job.attempts = attempt ∧ attempt ≤ t.job.maxRetries + 1
  | .done =>
    t.future = some .finished ∧
      (t.job.status = .succeeded ∧ t.job.attempts ≤ t.job.maxRetries + 1 ∨
        t.job.status = .failed ∧ t.job.attempts = t.job.maxRetries + 1)

theorem Good.attempts_le {t : Task R} (h : t.Good) : t.job.attempts ≤ t.job.maxRetries + 1 := by
  unfold Good at h
  split at h
  · omega
  · omega
  · omega
  · omega
  · rcases h.2 with h | h <;> omega

theorem Good.failed {t : Task R} (h : t.Good) (hf : t.job.status = .failed) : t.job.attempts = t.job.maxRetries + 1 := by
  unfold Good Live at h
  split at h <;> simp_all

/-- Only an idle worker leaves a cancelled future. -/
theorem Good.of_cancelled {t : Task R} (h : t.Good) (hf : t.future = some .cancelled) :
    t.worker = .idle ∧ (t.job.status = .pending ∨ t.job.status = .cancelled) := by
  unfold Good Live at h
  split at h
  · next hw => exact ⟨hw, h.2.2.2.imp_right And.left⟩
  all_goals simp [hf] at h

/-- Only an idle worker leaves a queued future. -/
theorem Good.of_queued {t : Task R} (h : t.Good) (hf : t.future = some .queued) :
    t.worker = .idle ∧ t.job.attempts = 0 ∧ t.job.status = .pending := by
  unfold Good Live at h
  split at h
  · next hw =>
    refine ⟨hw, h.1, h.2.2.2.resolve_right fun hc => ?_⟩
    rw [hf] at hc
    cases hc.2
  all_goals simp [hf] at h

theorem Good.of_none {t : Task R} (h : t.Good) (hf : t.future = none) :
    t.worker = .idle ∧ t.job.attempts = 0 ∧ t.job.status = .pending := by
  unfold Good Live at h
  split at h
  · next hw =>
    refine ⟨hw, h.1, h.2.2.2.resolve_right fun hc => ?_⟩
    rw [hf] at hc
    cases hc.2
  all_goals simp [hf] at h

/-- The worker's steps keep what is known and move the status, or leave it. -/
theorem Good.work {t t' : Task R} {w : Work R} (h : t.Good) (hw : t.work w = some t') :
    t'.Good ∧ (t'.job.status = t.job.status ∨ t.job.status.Moves t'.job.status) := by
  cases w with
  | take =>
    simp only [Task.work, Option.ite_none_right_eq_some, Option.some.injEq] at hw
    obtain ⟨hq, rfl⟩ := hw
    obtain ⟨-, ha, hs⟩ := h.of_queued hq
    exact ⟨⟨ha, rfl, hs⟩, .inl rfl⟩
  | start now =>
    simp only [Task.work] at hw
    split at hw
    · next hworker =>
      cases hw
      simp only [Good, hworker] at h
      exact ⟨⟨⟨h.2.1, .inl rfl⟩, by rw [h.1], by omega⟩, .inr (h.2.2 ▸ .start)⟩
    · cases hw
  | attempt =>
    simp only [Task.work] at hw
    split at hw
    · next attempt hworker =>
      simp only [Good, hworker] at h
      obtain ⟨hlive, hcount, hle⟩ := h
      rw [if_pos (by omega)] at hw
      cases hw
      exact ⟨⟨hlive, rfl, hle⟩, .inl rfl⟩
    · cases hw
  | succeed result now =>
    simp only [Task.work] at hw
    split at hw
    · next attempt hworker =>
      simp only [Good, hworker] at h
      obtain ⟨hlive, hcount, hle⟩ := h
      cases hw
      exact ⟨⟨rfl, .inl ⟨rfl, hcount ▸ hle⟩⟩, .inr (.end hlive.2 (.inl rfl))⟩
    · cases hw
  | fail error now =>
    simp only [Task.work] at hw
    split at hw
    · next attempt hworker =>
      simp only [Good, hworker] at h
      obtain ⟨hlive, hcount, hle⟩ := h
      split at hw
      · next hlast =>
        have hfull : t.job.attempts = t.job.maxRetries + 1 := by omega
        cases hw
        exact ⟨⟨rfl, .inr ⟨rfl, hfull⟩⟩, .inr (.end hlive.2 (.inr rfl))⟩
      · next hmore =>
        have hnext : attempt + 1 ≤ t.job.maxRetries + 1 := by omega
        cases hw
        refine ⟨⟨⟨hlive.1, .inr rfl⟩, congrArg (· + 1) hcount, hnext⟩, .inr ?_⟩
        rcases hlive.2 with hs | hs
        · exact hs ▸ .retry
        · exact hs ▸ .again
    · cases hw

theorem work_hasFuture {t t' : Task R} {w : Work R} (hw : t.work w = some t') : t'.job.hasFuture = t.job.hasFuture := by
  cases w <;> simp only [Task.work] at hw <;> split at hw
  all_goals first | (cases hw <;> rfl) | (split at hw <;> cases hw <;> rfl)

/-- After a step of its own the worker is not idle. -/
theorem work_busy {t t' : Task R} {w : Work R} (hw : t.work w = some t') : t'.worker ≠ .idle := by
  cases w <;> simp only [Task.work] at hw <;> split at hw
  all_goals first | (cases hw <;> simp) | (split at hw <;> cases hw <;> simp)

/-- What a step makes of a job that is there. -/
inductive Step : Task R → Task R → Prop
  | work {t t' : Task R} {w : Work R} : t.work w = some t' → Step t t'
  | enqueue {t : Task R} : t.future = none → Step t { t with future := some .queued }
  | keep {t : Task R} : Step t { t with job := { t.job with hasFuture := true } }
  | cancel {t : Task R} : t.future = some .queued → Step t { t with future := some .cancelled }
  | mark {t : Task R} {now : Nat} : t.future = some .cancelled →
      Step t { t with job := { t.job with status := .cancelled, finishedAt := some now } }

theorem Step.good {t t' : Task R} (hs : Step t t') (h : t.Good) : t'.Good := by
  cases hs with
  | work hw => exact (h.work hw).1
  | enqueue hf =>
    obtain ⟨hw, ha, hst⟩ := h.of_none hf
    simp [Good, hw, ha, hst]
  | keep => exact h
  | cancel hf =>
    obtain ⟨hw, ha, hst⟩ := h.of_queued hf
    simp [Good, hw, ha, hst]
  | mark hf =>
    obtain ⟨hw, -⟩ := h.of_cancelled hf
    simp only [Good, hw] at h ⊢
    exact ⟨h.1, h.2.1, h.2.2.1, .inr ⟨trivial, hf⟩⟩

theorem Step.status {t t' : Task R} (hs : Step t t') (h : t.Good) :
    t'.job.status = t.job.status ∨ t.job.status.Moves t'.job.status := by
  cases hs with
  | work hw => exact (h.work hw).2
  | enqueue => exact .inl rfl
  | keep => exact .inl rfl
  | cancel => exact .inl rfl
  | mark hf =>
    rcases (h.of_cancelled hf).2 with hst | hst
    · exact .inr (hst ▸ .cancel)
    · exact .inl hst.symm

/-- A future that is cancelled stays so. -/
theorem Step.cancelled {t t' : Task R} (hs : Step t t') (h : t.Good) (hf : t.future = some .cancelled) :
    t'.future = some .cancelled := by
  cases hs with
  | @work _ w hw =>
    obtain ⟨hidle, -⟩ := h.of_cancelled hf
    cases w <;> simp [Task.work, hidle, hf] at hw
  | enqueue hn => simp [hn] at hf
  | keep => exact hf
  | cancel => rfl
  | mark => exact hf

/-- The worker does nothing with a job the executor has not got. -/
theorem Good.not_work {t t' : Task R} {w : Work R} (h : t.Good) (hf : t.future = none) : t.work w ≠ some t' := by
  obtain ⟨hidle, -⟩ := h.of_none hf
  cases w <;> simp [Task.work, hidle, hf]

end Task

/-- The job a `submit` has registered and not yet handed over. -/
def Call.placing : Call → Option JobId
  | .pruning id _ => some id
  | .pruned id => some id
  | _ => none

namespace JobQueue

/-! ## The jobs and the calls -/

@[simp] theorem moveTo_task (q : JobQueue R) (call : CallId) (c : Call) : (q.moveTo call c).task = q.task := rfl

@[simp] theorem moveTo_jobs (q : JobQueue R) (call : CallId) (c : Call) : (q.moveTo call c).jobs = q.jobs := rfl

@[simp] theorem moveTo_lock (q : JobQueue R) (call : CallId) (c : Call) : (q.moveTo call c).lock = q.lock := rfl

@[simp] theorem put_jobs (q : JobQueue R) (id : JobId) (t : Task R) : (q.put id t).jobs = q.jobs := rfl

@[simp] theorem put_lock (q : JobQueue R) (id : JobId) (t : Task R) : (q.put id t).lock = q.lock := rfl

@[simp] theorem put_call (q : JobQueue R) (id : JobId) (t : Task R) : (q.put id t).call = q.call := rfl

@[simp] theorem moveTo_call_self (q : JobQueue R) (call : CallId) (c : Call) : (q.moveTo call c).call call = c :=
  Function.update_self _ _ _

theorem moveTo_call_ne (q : JobQueue R) {call call' : CallId} (h : call' ≠ call) (c : Call) :
    (q.moveTo call c).call call' = q.call call' := Function.update_of_ne h _ _

@[simp] theorem put_task_self (q : JobQueue R) (id : JobId) (t : Task R) : (q.put id t).task id = some t :=
  Function.update_self _ _ _

theorem put_task_ne (q : JobQueue R) {id id' : JobId} (h : id' ≠ id) (t : Task R) : (q.put id t).task id' = q.task id' :=
  Function.update_of_ne h _ _

theorem nextPass_cases (q : JobQueue R) (call : CallId) (id : JobId) :
    (q.maxHistory < q.jobs.length ∧ q.nextPass call id = (q.moveTo call (.pruning id q.jobs), [])) ∨
      (q.jobs.length ≤ q.maxHistory ∧ q.nextPass call id = q.release call id) := by
  unfold nextPass
  split
  · next h => exact .inl ⟨h, rfl⟩
  · next h => exact .inr ⟨Nat.le_of_not_lt h, rfl⟩

/-- What holds of the jobs and of the calls that hold one. -/
structure Good (q : JobQueue R) : Prop where
  tasks : ∀ id t, q.task id = some t → t.Good
  placing : ∀ call id, (q.call call).placing = some id → ∃ t, q.task id = some t ∧ t.future = none
  alone : ∀ call call' id, (q.call call).placing = some id → (q.call call').placing = some id → call = call'
  won : ∀ call id, q.call call = .won id → ∃ t, q.task id = some t ∧ t.future = some .cancelled

theorem good_create (handlers : List String) (maxHistory defaultMaxRetries : Nat) :
    Good (create handlers maxHistory defaultMaxRetries : JobQueue R) where
  tasks _ _ h := by cases h
  placing _ _ h := by cases h
  alone _ _ _ h := by cases h
  won _ _ h := by cases h

/-- A call moves on and holds no job afterwards. -/
theorem Good.leave {q : JobQueue R} (hg : Good q) (call : CallId) {c : Call} (hp : c.placing = none)
    (hw : ∀ id, c = .won id → ∃ t, q.task id = some t ∧ t.future = some .cancelled) : Good (q.moveTo call c) := by
  have hold : ∀ call' id, ((q.moveTo call c).call call').placing = some id → (q.call call').placing = some id := by
    intro call' id h
    rcases eq_or_ne call' call with rfl | hne
    · simp [hp] at h
    · rwa [moveTo_call_ne q hne] at h
  constructor
  · exact hg.tasks
  · exact fun call' id h => hg.placing call' id (hold call' id h)
  · exact fun c₁ c₂ id h₁ h₂ => hg.alone c₁ c₂ id (hold c₁ id h₁) (hold c₂ id h₂)
  · intro call' id h
    rcases eq_or_ne call' call with rfl | hne
    · exact hw id (by simpa using h)
    · exact hg.won call' id (by rwa [moveTo_call_ne q hne] at h)

/-- A call moves on and holds a job nobody else holds. -/
theorem Good.place {q : JobQueue R} (hg : Good q) {call : CallId} {id : JobId} {c : Call} (hp : c.placing = some id)
    (ht : ∃ t, q.task id = some t ∧ t.future = none)
    (halone : ∀ call', (q.call call').placing = some id → call' = call) : Good (q.moveTo call c) := by
  have hself : ∀ call' id', ((q.moveTo call c).call call').placing = some id' →
      call' = call ∧ id' = id ∨ call' ≠ call ∧ (q.call call').placing = some id' := by
    intro call' id' h
    rcases eq_or_ne call' call with rfl | hne
    · rw [moveTo_call_self, hp] at h
      exact .inl ⟨rfl, (Option.some.inj h).symm⟩
    · rw [moveTo_call_ne q hne] at h
      exact .inr ⟨hne, h⟩
  constructor
  · exact hg.tasks
  · intro call' id' h
    rcases hself call' id' h with ⟨-, rfl⟩ | ⟨-, h⟩
    · exact ht
    · exact hg.placing call' id' h
  · intro c₁ c₂ id' h₁ h₂
    rcases hself c₁ id' h₁ with ⟨he₁, hid₁⟩ | ⟨hne₁, hold₁⟩ <;> rcases hself c₂ id' h₂ with ⟨he₂, hid₂⟩ | ⟨hne₂, hold₂⟩
    · rw [he₁, he₂]
    · exact absurd (halone c₂ (hid₁ ▸ hold₂)) hne₂
    · exact absurd (halone c₁ (hid₂ ▸ hold₁)) hne₁
    · exact hg.alone c₁ c₂ id' hold₁ hold₂
  · intro call' id' h
    rcases eq_or_ne call' call with rfl | hne
    · rw [moveTo_call_self] at h
      simp [h, Call.placing] at hp
    · exact hg.won call' id' (by rwa [moveTo_call_ne q hne] at h)

/-- A job that is there changes by a step. -/
theorem Good.put {q : JobQueue R} (hg : Good q) {id : JobId} {t t' : Task R} (ht : q.task id = some t) (hs : t.Step t')
    (hf : ∀ call, (q.call call).placing = some id → t'.future = none) : Good (q.put id t') := by
  constructor
  · intro id' u hu
    rcases eq_or_ne id' id with rfl | hne
    · rw [put_task_self] at hu
      cases hu
      exact hs.good (hg.tasks _ _ ht)
    · exact hg.tasks id' u (by rwa [put_task_ne q hne] at hu)
  · intro call id' h
    rcases eq_or_ne id' id with rfl | hne
    · exact ⟨t', put_task_self .., hf call h⟩
    · rw [put_task_ne q hne]
      exact hg.placing call id' h
  · exact hg.alone
  · intro call id' h
    obtain ⟨u, hu, hc⟩ := hg.won call id' h
    rcases eq_or_ne id' id with rfl | hne
    · rw [ht] at hu
      cases hu
      exact ⟨t', put_task_self .., hs.cancelled (hg.tasks _ _ ht) hc⟩
    · exact ⟨u, by rwa [put_task_ne q hne], hc⟩

/-- A job that a call is still placing has no future. -/
theorem Good.future_none {q : JobQueue R} (hg : Good q) {id : JobId} {t : Task R} (ht : q.task id = some t)
    {call : CallId} (hp : (q.call call).placing = some id) : t.future = none := by
  obtain ⟨u, hu, hf⟩ := hg.placing call id hp
  rw [ht] at hu
  cases hu
  exact hf

theorem Good.nextPass {q : JobQueue R} (hg : Good q) {call : CallId} {id : JobId}
    (ht : ∃ t, q.task id = some t ∧ t.future = none)
    (halone : ∀ call', (q.call call').placing = some id → call' = call) : Good (q.nextPass call id).1 := by
  rcases nextPass_cases q call id with ⟨-, h⟩ | ⟨-, h⟩ <;> rw [h]
  · exact hg.place rfl ht halone
  · exact Good.place (q := { q with lock := none }) ⟨hg.tasks, hg.placing, hg.alone, hg.won⟩ rfl ht halone

theorem Good.register {q : JobQueue R} (hg : Good q) {id : JobId} (hnew : q.task id = none) (call : CallId)
    {job : Job R} (hs : job.status = .pending) (ha : job.attempts = 0) :
    Good (({ q with lock := some call, jobs := q.jobs ++ [id] }.put id { job := job }).nextPass call id).1 := by
  have hnobody : ∀ call', (q.call call').placing ≠ some id := by
    intro call' h
    obtain ⟨t, ht, -⟩ := hg.placing call' id h
    rw [hnew] at ht
    cases ht
  refine Good.nextPass (q := { q with lock := some call, jobs := q.jobs ++ [id] }.put id { job := job })
    ⟨?_, ?_, hg.alone, ?_⟩ ⟨_, put_task_self .., rfl⟩ fun call' h => absurd h (hnobody call')
  · intro id' t ht
    rcases eq_or_ne id' id with rfl | hne
    · rw [put_task_self] at ht
      cases ht
      exact ⟨ha, by simp, by simp, .inl hs⟩
    · exact hg.tasks id' t (by rwa [put_task_ne _ hne] at ht)
  · intro call' id' h
    have hne : id' ≠ id := fun he => hnobody call' (he ▸ h)
    rw [put_task_ne _ hne]
    exact hg.placing call' id' h
  · intro call' id' h
    obtain ⟨t, ht, hf⟩ := hg.won call' id' h
    have hne : id' ≠ id := fun he => by
      rw [he, hnew] at ht
      cases ht
    exact ⟨t, by rwa [put_task_ne _ hne], hf⟩

theorem Steps.good {q q' : JobQueue R} {x : Action R} {o : List Obs} (h : Steps q x q' o) (hg : Good q) : Good q' := by
  cases h with
  | work ht hw =>
    exact hg.put ht (.work hw) fun call hp => absurd hw ((hg.tasks _ _ ht).not_work (hg.future_none ht hp))
  | refuse => exact hg.leave _ rfl (by simp)
  | accept => exact hg.leave _ rfl (by simp)
  | register hc hl hn hr => exact hr ▸ hg.register hn _ rfl rfl
  | @release call id hc =>
    have hp : (q.call call).placing = some id := by rw [hc]; rfl
    exact Good.place (q := { q with lock := none }) ⟨hg.tasks, hg.placing, hg.alone, hg.won⟩ rfl
      (hg.placing call id hp) fun call' h => hg.alone call' call id h hp
  | @evict call id x rest t r hc ht hterminal hr =>
    have hp : (q.call call).placing = some id := by rw [hc]; rfl
    rw [← hr]
    exact Good.nextPass (q := { q with jobs := q.jobs.erase x }) ⟨hg.tasks, hg.placing, hg.alone, hg.won⟩
      (hg.placing call id hp) fun call' h => hg.alone call' call id h hp
  | @pass call id x rest t hc =>
    have hp : (q.call call).placing = some id := by rw [hc]; rfl
    exact hg.place rfl (hg.placing call id hp) fun call' h => hg.alone call' call id h hp
  | reject => exact hg.leave _ rfl (by simp)
  | @enqueue call id t hc ho ht =>
    have hp : (q.call call).placing = some id := by rw [hc]; rfl
    -- The call lets the job go as the executor gets it.
    refine Good.put (q := q.moveTo call (.accepted id)) (hg.leave _ rfl (by simp)) ht
      (.enqueue (hg.future_none ht hp)) fun call' h => ?_
    rcases eq_or_ne call' call with rfl | hne
    · simp [Call.placing] at h
    · rw [moveTo_call_ne q hne] at h
      exact absurd (hg.alone call' call id h hp) hne
  | @keep call id t hc ht =>
    exact (hg.put ht .keep fun call hp => (hg.future_none ht hp : t.future = none)).leave _ rfl (by simp)
  | find => exact hg.leave _ rfl (by simp)
  | miss => exact hg.leave _ rfl (by simp)
  | @cancel call id t hc ht hf =>
    refine (hg.put ht (.cancel hf) fun call hp => ?_).leave _ rfl ?_
    · rw [hg.future_none ht hp] at hf
      cases hf
    · intro id' he
      cases he
      exact ⟨_, put_task_self .., rfl⟩
  | @cancelAgain call id t hc ht hf =>
    refine hg.leave _ rfl ?_
    intro id' he
    cases he
    exact ⟨t, ht, hf⟩
  | late => exact hg.leave _ rfl (by simp)
  | @mark call id now t hc ht =>
    obtain ⟨u, hu, hf⟩ := hg.won call id hc
    rw [ht] at hu
    cases hu
    refine (hg.put ht (.mark hf) fun call hp => (hg.future_none ht hp : t.future = none)).leave _ rfl (by simp)
  | shutdown => exact Good.leave (q := { q with down := true }) ⟨hg.tasks, hg.placing, hg.alone, hg.won⟩ _ rfl (by simp)
  | close => exact Good.leave (q := { q with closed := true }) ⟨hg.tasks, hg.placing, hg.alone, hg.won⟩ _ rfl (by simp)

end JobQueue

end LogAnalytics.Workers
