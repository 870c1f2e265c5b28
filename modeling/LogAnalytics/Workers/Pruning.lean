import LogAnalytics.Workers.Discipline
/-!
# Pruning and the history

Only one call at a time is inside `_prune`, and the jobs it has behind it in a pass were not
over when it looked. They can be over by the time it returns, since the workers do not wait
for the lock: the history is then longer than it need be, until the next `submit`.
-/
open LogAnalytics.Lib

namespace LogAnalytics.Workers

variable {R : Type}

/-- From one state of a job to the next: it can appear, and its status stays or moves. -/
def Moved (before after : Option (Task R)) : Prop :=
  (before = none → ∀ t ∈ after, t.job.status = .pending) ∧
    ∀ t ∈ before, ∃ u ∈ after, u.job.status = t.job.status ∨ t.job.status.Moves u.job.status

theorem Moved.refl (t : Option (Task R)) : Moved t t :=
  ⟨fun h u hu => by simp [h] at hu, fun u hu => ⟨u, hu, .inl rfl⟩⟩

theorem Moved.appear {t : Task R} (h : t.job.status = .pending) : Moved none (some t) := by
  refine ⟨fun _ u hu => ?_, fun u hu => ?_⟩
  · cases hu
    exact h
  · cases hu

/-- `_prune` looked at the job, and it was not over any time it looked. -/
def SeenAlive (tr : List Obs) (call : CallId) (id : JobId) : Prop :=
  (∃ status, .looked call id status ∈ tr) ∧ ∀ status, .looked call id status ∈ tr → status.isTerminal = false

namespace JobQueue

theorem nextPass_task (q : JobQueue R) (call : CallId) (id : JobId) : (q.nextPass call id).1.task = q.task := by
  rcases nextPass_cases q call id with ⟨-, h⟩ | ⟨-, h⟩ <;> rw [h] <;> rfl

theorem nextPass_jobs (q : JobQueue R) (call : CallId) (id : JobId) : (q.nextPass call id).1.jobs = q.jobs := by
  rcases nextPass_cases q call id with ⟨-, h⟩ | ⟨-, h⟩ <;> rw [h] <;> rfl

theorem nextPass_maxHistory (q : JobQueue R) (call : CallId) (id : JobId) :
    (q.nextPass call id).1.maxHistory = q.maxHistory := by
  rcases nextPass_cases q call id with ⟨-, h⟩ | ⟨-, h⟩ <;> rw [h] <;> rfl

theorem Steps.maxHistory {q q' : JobQueue R} {x : Action R} {o : List Obs} (h : Steps q x q' o) :
    q'.maxHistory = q.maxHistory := by
  cases h with
  | register _ _ _ hr => exact hr ▸ nextPass_maxHistory ..
  | evict _ _ _ hr => exact hr ▸ nextPass_maxHistory ..
  | _ => rfl

theorem moved_put {q : JobQueue R} (hg : Good q) {id : JobId} {t t' : Task R} (ht : q.task id = some t)
    (hs : t.Step t') (i : JobId) : Moved (q.task i) ((q.put id t').task i) := by
  rcases eq_or_ne i id with rfl | hne
  · rw [put_task_self, ht]
    refine ⟨nofun, fun u hu => ?_⟩
    cases hu
    exact ⟨t', rfl, hs.status (hg.tasks _ _ ht)⟩
  · rw [put_task_ne q hne]
    exact .refl _

/-- A step moves every status, if at all, along the allowed moves. -/
theorem Steps.moved {q q' : JobQueue R} {x : Action R} {o : List Obs} (h : Steps q x q' o) (hg : Good q) (i : JobId) :
    Moved (q.task i) (q'.task i) := by
  cases h with
  | work ht hw => exact moved_put hg ht (.work hw) i
  | @register call id name maxRetries now r _ _ hn hr =>
    rw [← hr, nextPass_task]
    rcases eq_or_ne i id with rfl | hne
    · rw [put_task_self, hn]
      exact .appear rfl
    · rw [put_task_ne _ hne]
      exact .refl _
  | evict _ _ _ hr =>
    rw [← hr, nextPass_task]
    exact .refl _
  | @enqueue call id t hc _ ht =>
    exact moved_put hg ht (.enqueue (hg.future_none ht (show (q.call call).placing = some id by rw [hc]; rfl))) i
  | keep _ ht => exact moved_put hg ht .keep i
  | cancel _ ht hf => exact moved_put hg ht (.cancel hf) i
  | @mark call id now t hc ht =>
    obtain ⟨u, hu, hf⟩ := hg.won call id hc
    rw [ht] at hu
    cases hu
    exact moved_put hg ht (.mark hf) i
  | _ => exact .refl _

theorem Steps.isSome {q q' : JobQueue R} {x : Action R} {o : List Obs} (h : Steps q x q' o) (hg : Good q) {i : JobId}
    (hi : (q.task i).isSome) : (q'.task i).isSome := by
  obtain ⟨t, ht⟩ := Option.isSome_iff_exists.1 hi
  obtain ⟨u, hu, -⟩ := (h.moved hg i).2 t ht
  exact Option.isSome_iff_exists.2 ⟨u, hu⟩

/-! ## The calls inside the lock -/

/-- What holds of the tracked jobs and of what pruning has seen. -/
structure Pruning (q : JobQueue R) (tr : List Obs) : Prop where
  nodup : q.jobs.Nodup
  known : ∀ id ∈ q.jobs, (q.task id).isSome
  looked : ∀ call id status, .looked call id status ∈ tr →
    (q.task id).isSome ∧ (id ∈ q.jobs → status.isTerminal = false)
  passed : ∀ call id rest, q.call call = .pruning id rest →
    q.lock = some call ∧ ∃ past, q.jobs = past ++ rest ∧ ∀ x ∈ past, ∃ status, .looked call x status ∈ tr

theorem pruning_create (handlers : List String) (maxHistory defaultMaxRetries : Nat) :
    Pruning (create handlers maxHistory defaultMaxRetries : JobQueue R) [] where
  nodup := List.nodup_nil
  known _ h := by cases h
  looked _ _ _ h := by cases h
  passed _ _ _ h := by cases h

/-- A step outside the lock. -/
theorem Pruning.outside {q q' : JobQueue R} {tr o : List Obs} (hp : Pruning q tr) (hj : q'.jobs = q.jobs)
    (hl : q'.lock = q.lock) (ht : ∀ id, (q.task id).isSome → (q'.task id).isSome)
    (hc : ∀ call id rest, q'.call call = .pruning id rest → q.call call = .pruning id rest)
    (ho : ∀ call id status, .looked call id status ∉ o) : Pruning q' (tr ++ o) := by
  constructor
  · rw [hj]; exact hp.nodup
  · rw [hj]; exact fun id hid => ht id (hp.known id hid)
  · intro call id status h
    obtain ⟨hsome, halive⟩ := hp.looked call id status ((List.mem_append.1 h).resolve_right (ho call id status))
    rw [hj]
    exact ⟨ht id hsome, halive⟩
  · intro call id rest h
    obtain ⟨hlock, past, hjobs, hpast⟩ := hp.passed call id rest (hc call id rest h)
    rw [hj, hl]
    exact ⟨hlock, past, hjobs, fun x hx => (hpast x hx).imp fun _ h => List.mem_append_left o h⟩

/-- The one call in the lock moves on; with `nobody` no other was in it. -/
theorem Pruning.nextPass {q : JobQueue R} {tr o : List Obs} {call : CallId} {id : JobId} (hn : q.jobs.Nodup)
    (hk : ∀ id ∈ q.jobs, (q.task id).isSome)
    (hs : ∀ c i status, .looked c i status ∈ tr ++ o → (q.task i).isSome ∧ (i ∈ q.jobs → status.isTerminal = false))
    (hl : q.lock = some call) (nobody : ∀ c i rest, c ≠ call → q.call c ≠ .pruning i rest) :
    Pruning (q.nextPass call id).1 (tr ++ (o ++ (q.nextPass call id).2)) := by
  rcases nextPass_cases q call id with ⟨-, h⟩ | ⟨-, h⟩ <;> rw [h]
  · refine ⟨hn, hk, by simpa using hs, fun c i rest hc => ?_⟩
    rcases eq_or_ne c call with rfl | hne
    · rw [moveTo_call_self] at hc
      cases hc
      exact ⟨hl, [], rfl, by simp⟩
    · exact absurd (by rwa [moveTo_call_ne q hne] at hc) (nobody c i rest hne)
  · refine ⟨hn, hk, fun c i status hmem => hs c i status ?_, fun c i rest hc => ?_⟩
    · simpa [JobQueue.release] using hmem
    · rcases eq_or_ne c call with rfl | hne
      · simp [JobQueue.release] at hc
      · exact absurd (by rwa [JobQueue.release, moveTo_call_ne _ hne] at hc) (nobody c i rest hne)

theorem pruning_ne {q : JobQueue R} {call : CallId} {c : Call} (hp : ∀ id rest, c ≠ .pruning id rest) :
    ∀ call' id rest, (q.moveTo call c).call call' = .pruning id rest → q.call call' = .pruning id rest := by
  intro call' id rest h
  rcases eq_or_ne call' call with rfl | hne
  · rw [moveTo_call_self] at h
    exact absurd h (hp id rest)
  · rwa [moveTo_call_ne q hne] at h

theorem Steps.pruning {q q' : JobQueue R} {x : Action R} {o tr : List Obs} (h : Steps q x q' o) (hg : Good q)
    (hp : Pruning q tr) : Pruning q' (tr ++ o) := by
  have hsome := fun i => h.isSome hg (i := i)
  -- Whoever else prunes would hold the lock.
  have hother : ∀ call id rest, q.call call = .pruning id rest →
      ∀ c i rest', c ≠ call → q.call c ≠ .pruning i rest' := by
    intro call id rest hc c i rest' hne hc'
    have hlock := (hp.passed call id rest hc).1
    rw [(hp.passed c i rest' hc').1] at hlock
    exact hne (Option.some.inj hlock)
  cases h with
  | work => exact hp.outside rfl rfl hsome (fun _ _ _ h => h) (by simp)
  | refuse => exact hp.outside rfl rfl hsome (pruning_ne (by simp)) (by simp [JobQueue.raise])
  | accept => exact hp.outside rfl rfl hsome (pruning_ne (by simp)) (by simp)
  | @register call id name maxRetries now r hc hl hn hr =>
    have hfresh : id ∉ q.jobs := fun hid => by simpa [hn] using hp.known id hid
    have hput : ∀ i, (q.task i).isSome → (r.1.task i).isSome := hsome
    rw [← hr, nextPass_task] at hput
    rw [← hr, ← List.nil_append (JobQueue.nextPass _ call id).2]
    refine Pruning.nextPass ?_ ?_ ?_ rfl ?_
    · exact List.nodup_append.2 ⟨hp.nodup, List.nodup_singleton id, fun i hi j hj he => hfresh (by
        rwa [← List.mem_singleton.1 hj, ← he])⟩
    · intro i hi
      rcases List.mem_append.1 hi with hi | hi
      · exact hput i (hp.known i hi)
      · rw [List.mem_singleton.1 hi, put_task_self]
        rfl
    · intro c i status hmem
      obtain ⟨hi, halive⟩ := hp.looked c i status (by simpa using hmem)
      refine ⟨hput i hi, fun hin => halive ((List.mem_append.1 hin).resolve_right fun he => ?_)⟩
      rw [List.mem_singleton.1 he, hn] at hi
      cases hi
    · intro c i rest _ hc'
      have hlock := (hp.passed c i rest hc').1
      rw [hl] at hlock
      cases hlock
  | @release call id hc =>
    refine ⟨hp.nodup, hp.known, fun c i status hmem => hp.looked c i status ?_, fun c i rest hc' => ?_⟩
    · simpa [JobQueue.release] using hmem
    · rcases eq_or_ne c call with rfl | hne
      · simp [JobQueue.release] at hc'
      · exact absurd (by rwa [JobQueue.release, moveTo_call_ne _ hne] at hc') (hother call id [] hc c i rest hne)
  | @evict call id x rest t r hc ht hterminal hr =>
    rw [← hr]
    refine Pruning.nextPass (o := [.looked call x t.job.status]) (hp.nodup.erase x) ?_ ?_
      (hp.passed call id _ hc).1 (hother call id _ hc)
    · exact fun i hi => hp.known i (List.mem_of_mem_erase hi)
    · intro c i status hmem
      rcases List.mem_append.1 hmem with hmem | hmem
      · obtain ⟨hi, halive⟩ := hp.looked c i status hmem
        exact ⟨hi, fun hin => halive (List.mem_of_mem_erase hin)⟩
      · cases List.mem_singleton.1 hmem
        exact ⟨by rw [ht]; rfl, fun hin => absurd hin hp.nodup.not_mem_erase⟩
  | @pass call id x rest t hc ht hlive =>
    obtain ⟨hlock, past, hjobs, hpast⟩ := hp.passed call id _ hc
    refine ⟨hp.nodup, hp.known, ?_, ?_⟩
    · intro c i status hmem
      rcases List.mem_append.1 hmem with hmem | hmem
      · exact hp.looked c i status hmem
      · cases List.mem_singleton.1 hmem
        exact ⟨by rw [moveTo_task, ht]; rfl, fun _ => hlive⟩
    · intro c i rest' hc'
      rcases eq_or_ne c call with rfl | hne
      · rw [moveTo_call_self] at hc'
        cases hc'
        refine ⟨hlock, past ++ [x], by simp [hjobs], ?_⟩
        intro y hy
        rcases List.mem_append.1 hy with hy | hy
        · exact (hpast y hy).imp fun _ h => List.mem_append_left _ h
        · rw [List.mem_singleton.1 hy]
          exact ⟨_, List.mem_append_right _ (List.mem_singleton.2 rfl)⟩
      · exact absurd (by rwa [moveTo_call_ne q hne] at hc') (hother call id _ hc c i rest' hne)
  | reject => exact hp.outside rfl rfl hsome (pruning_ne (by simp)) (by simp [JobQueue.raise])
  | enqueue => exact hp.outside rfl rfl hsome (pruning_ne (q := q) (by simp)) (by simp)
  | keep => exact hp.outside rfl rfl hsome (pruning_ne (q := q) (by simp)) (by simp)
  | find => exact hp.outside rfl rfl hsome (pruning_ne (by simp)) (by simp)
  | miss => exact hp.outside rfl rfl hsome (pruning_ne (by simp)) (by simp)
  | cancel => exact hp.outside rfl rfl hsome (pruning_ne (q := q) (by simp)) (by simp)
  | cancelAgain => exact hp.outside rfl rfl hsome (pruning_ne (by simp)) (by simp)
  | late => exact hp.outside rfl rfl hsome (pruning_ne (by simp)) (by simp)
  | mark => exact hp.outside rfl rfl hsome (pruning_ne (q := q) (by simp)) (by simp)
  | shutdown => exact hp.outside rfl rfl hsome (pruning_ne (q := q) (by simp)) (by simp)
  | close => exact hp.outside rfl rfl hsome (pruning_ne (q := q) (by simp)) (by simp)

/-! ## Runs -/

section

variable {handlers : List String} {maxHistory defaultMaxRetries : Nat} {xs : List (Action R)} {q : JobQueue R}
  {tr : List Obs}

theorem reachable (h : runs step (create handlers maxHistory defaultMaxRetries) xs = some (q, tr)) :
    Good q ∧ Pruning q tr ∧ q.maxHistory = max 10 maxHistory := by
  refine runs_inv (fun q tr => Good q ∧ Pruning q tr ∧ q.maxHistory = max 10 maxHistory) ?_
    ⟨good_create .., pruning_create .., rfl⟩ h
  intro s x s' o tr hI hs
  have hsteps := step_steps hs
  exact ⟨hsteps.good hI.1, hsteps.pruning hI.1 hI.2.1, hsteps.maxHistory.trans hI.2.2⟩

/-- A status that is terminal is there to stay. -/
theorem terminal_stays {ys : List (Action R)} {r : JobQueue R} {tr' : List Obs} (hg : Good q)
    (h : runs step q ys = some (r, tr')) {id : JobId} {t : Task R} (ht : q.task id = some t)
    (hterminal : t.job.status.isTerminal = true) : ∃ u, r.task id = some u ∧ u.job.status = t.job.status := by
  refine (runs_inv (fun s _ => Good s ∧ ∃ u, s.task id = some u ∧ u.job.status = t.job.status) ?_
    ⟨hg, t, ht, rfl⟩ h).2
  rintro s x s' o _ ⟨hs, u, hu, hsame⟩ hstep
  have hsteps := step_steps hstep
  obtain ⟨u', hu', hmove⟩ := (hsteps.moved hs id).2 u hu
  refine ⟨hsteps.good hs, u', hu', ?_⟩
  rcases hmove with hmove | hmove
  · rw [hmove, hsame]
  · rw [← hsame, hmove.not_terminal] at hterminal
    cases hterminal

/-- Only pruning forgets a job, and only one that is over. -/
theorem Steps.evicted {q' : JobQueue R} {x : Action R} {o : List Obs} (h : Steps q x q' o) {id : JobId}
    (hid : id ∈ q.jobs) (hgone : id ∉ q'.jobs) : ∃ t, q.task id = some t ∧ t.job.status.isTerminal = true := by
  cases h with
  | register _ _ _ hr =>
    rw [← hr, nextPass_jobs] at hgone
    exact absurd (List.mem_append_left _ hid) hgone
  | @evict call _ y rest t r hc ht hterminal hr =>
    rw [← hr, nextPass_jobs] at hgone
    rcases eq_or_ne id y with rfl | hne
    · exact ⟨t, ht, hterminal⟩
    · exact absurd ((List.mem_erase_of_ne hne).2 hid) hgone
  | _ => exact absurd hid hgone

theorem nextPass_short {q : JobQueue R} {call call' : CallId} {id : JobId}
    (h : .pruned call' ∈ (q.nextPass call id).2) : (q.nextPass call id).1.jobs.length ≤ q.maxHistory := by
  rcases nextPass_cases q call id with ⟨-, hn⟩ | ⟨hle, hn⟩
  · rw [hn] at h
    cases h
  · rw [nextPass_jobs]
    exact hle

/-- When pruning returns, the history is short enough or nothing it saw could go. -/
theorem Steps.pruned {q' : JobQueue R} {x : Action R} {o : List Obs} (h : Steps q x q' o) (hp : Pruning q tr)
    {call : CallId} (hpruned : .pruned call ∈ o) :
    q'.jobs.length ≤ q.maxHistory ∨ ∀ id ∈ q'.jobs, SeenAlive (tr ++ o) call id := by
  cases h with
  | register _ _ _ hr =>
    subst hr
    exact .inl (nextPass_short hpruned)
  | evict _ _ _ hr =>
    subst hr
    exact .inl (nextPass_short (by simpa using hpruned))
  | @release c id hc =>
    have he : call = c := by simpa [JobQueue.release] using hpruned
    subst he
    obtain ⟨-, past, hjobs, hpast⟩ := hp.passed call id [] hc
    rw [List.append_nil] at hjobs
    refine .inr fun i hi => ⟨?_, fun status hmem => ?_⟩
    · obtain ⟨status, hmem⟩ := hpast i (hjobs ▸ hi)
      exact ⟨status, List.mem_append_left _ hmem⟩
    · exact (hp.looked call i status (by simpa [JobQueue.release] using hmem)).2 hi
  | refuse => simp [JobQueue.raise] at hpruned
  | reject => simp [JobQueue.raise] at hpruned
  | _ => simp at hpruned

/-- Every status moves along `JobStatus.Moves` and stays once it is terminal; a job is tried at
most `max_retries + 1` times and fails after exactly that many; pruning forgets only what is
over, and when it returns the history is short enough unless no job it saw was over. -/
theorem job_states (h : runs step (create handlers maxHistory defaultMaxRetries) xs = some (q, tr)) :
    (∀ id t, q.task id = some t → t.job.attempts ≤ t.job.maxRetries + 1 ∧
      (t.job.status = .failed → t.job.attempts = t.job.maxRetries + 1)) ∧
    (∀ x q' o, q.step x = some (q', o) → (∀ id, Moved (q.task id) (q'.task id)) ∧
      (∀ id ∈ q.jobs, id ∉ q'.jobs → ∃ t, q.task id = some t ∧ t.job.status.isTerminal = true) ∧
      ∀ call, .pruned call ∈ o →
        q'.jobs.length ≤ max 10 maxHistory ∨ ∀ id ∈ q'.jobs, SeenAlive (tr ++ o) call id) ∧
    ∀ ys r tr', runs step q ys = some (r, tr') → ∀ id t, q.task id = some t → t.job.status.isTerminal = true →
      ∃ u, r.task id = some u ∧ u.job.status = t.job.status := by
  obtain ⟨hg, hp, hmax⟩ := reachable h
  refine ⟨fun id t ht => ?_, fun x q' o hs => ?_, fun ys r tr' hr id t ht => terminal_stays hg hr ht⟩
  · have hgood := hg.tasks id t ht
    exact ⟨hgood.attempts_le, hgood.failed⟩
  · have hsteps := step_steps hs
    refine ⟨hsteps.moved hg, fun id hid => hsteps.evicted hid, fun call hpruned => ?_⟩
    rw [← hmax]
    exact hsteps.pruned hp hpruned

end

/-- A `submit` that meets nothing in its way. -/
def plainSubmit (call : CallId) (id : JobId) : List (Action Unit) :=
  [.submit call "ingest" none, .register call id 0, .enqueue call, .keep call]

/-- Both attempts of a job with one retry fail. -/
def failTwice : List (Action Unit) :=
  plainSubmit 0 0 ++
    [.work 0 .take, .work 0 (.start 0), .work 0 .attempt, .work 0 (.fail "OSError" 1), .work 0 .attempt,
      .work 0 (.fail "OSError" 2)]

/-- What a run shows of the first job. -/
def firstJob (r : JobQueue Unit × List Obs) : Option JobStatus := (r.1.task 0).map (·.job.status)

theorem job_states_failed : ∃ q tr t, runs step (create ["ingest"] 10 1) failTwice = some (q, tr) ∧
    q.task 0 = some t ∧ t.job.status = .failed ∧ t.job.attempts = t.job.maxRetries + 1 := by
  have hfirst : (runs step (create ["ingest"] 10 1) failTwice).map firstJob = some (some .failed) := by decide
  obtain ⟨⟨q, tr⟩, hrun, hstatus⟩ := Option.map_eq_some_iff.1 hfirst
  obtain ⟨t, ht, hfailed⟩ := Option.map_eq_some_iff.1 hstatus
  exact ⟨q, tr, t, hrun, ht, hfailed, ((job_states hrun).1 0 t ht).2 hfailed⟩

/-! ## A history that is too long -/

/-- The eleventh job is registered while the first one runs; the first one succeeds right after
`_prune` has looked at it. -/
def overfull : List (Action Unit) :=
  (List.range 10).flatMap (fun n => plainSubmit n n) ++
    [.work 0 .take, .work 0 (.start 0), .work 0 .attempt, .submit 10 "ingest" none, .register 10 10 0, .look 10,
      .work 0 (.succeed () 1)] ++
    List.replicate 11 (.look 10) ++ [.enqueue 10, .keep 10]

/-- `submit` has returned and eleven jobs are tracked, the first of them over. -/
theorem overfull_history : ∃ q tr t, runs step (create ["ingest"] 10 0) overfull = some (q, tr) ∧
    tr.getLast? = some (.returned 10 10) ∧ max 10 10 < q.jobs.length ∧ 0 ∈ q.jobs ∧ q.task 0 = some t ∧
    t.job.status = .succeeded := by
  have hend : (runs step (create ["ingest"] 10 0) overfull).map
      (fun r => (r.1.jobs.length, r.1.jobs.contains 0, firstJob r, r.2.getLast?)) =
      some (11, true, some .succeeded, some (.returned 10 10)) := by decide +kernel
  obtain ⟨⟨q, tr⟩, hrun, hshow⟩ := Option.map_eq_some_iff.1 hend
  simp only [Prod.mk.injEq, List.contains_iff_mem] at hshow
  obtain ⟨hlength, htracked, hstatus, hlast⟩ := hshow
  obtain ⟨t, ht, hsucceeded⟩ := Option.map_eq_some_iff.1 hstatus
  exact ⟨q, tr, t, hrun, hlast, by rw [hlength]; decide, htracked, ht, hsucceeded⟩

end JobQueue

end LogAnalytics.Workers
