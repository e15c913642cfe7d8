import CrawlTrove.Lifecycle.Provider

/-!
# Job transactions as actions

Submission, cancellation, finalization and the populating transaction of
`retry_failures`, each as the actions it commits.
-/

namespace CrawlTrove

open Relational Transaction

namespace Lifecycle

/-! ## Inserting tasks -/

theorem insertTask_eq_some {t : Task} {s s' : Store} :
    s.insertTask t = some s' ↔ (∃ j ∈ s.jobs, j.id = t.jobId) ∧
      ∃ T, s.tasks.insert? t = some T ∧ s' = { s with tasks := T } := by
  unfold Store.insertTask
  split
  · rename_i h
    have hjob : ∃ j ∈ s.jobs, j.id = t.jobId := by simpa [Table.any_eq_true] using h
    simp [hjob, eq_comm]
  · rename_i h
    have hjob : ¬ ∃ j ∈ s.jobs, j.id = t.jobId := by simpa [Table.any_eq_true] using h
    simp [hjob]

/-- `ON CONFLICT DO NOTHING` either finds the URL in the job or inserts. -/
theorem insertTaskOnce_ok {t : Task} {s s' : Store} {b : Bool}
    (h : insertTaskOnce t s = .ok (b, s')) :
    (b = false ∧ s' = s ∧ ∃ u ∈ s.tasks, u.jobId = t.jobId ∧ u.urlHash = t.urlHash) ∨
      (b = true ∧ (∃ j ∈ s.jobs, j.id = t.jobId) ∧
        ∃ T, s.tasks.insert? t = some T ∧ s' = { s with tasks := T }) := by
  simp only [insertTaskOnce, bind_ok, read_ok] at h
  obtain ⟨dup, s₁, ⟨hdup, rfl⟩, h⟩ := h
  split at h
  · rename_i htrue
    obtain ⟨rfl, rfl⟩ := pure_ok.mp h
    have hany := hdup.trans htrue
    exact Or.inl ⟨rfl, rfl, by simpa [Table.any_eq_true] using hany⟩
  · simp only [bind_ok, attempt_ok, pure_ok] at h
    obtain ⟨_, s₂, h₂, rfl, rfl⟩ := h
    exact Or.inr ⟨rfl, insertTask_eq_some.mp h₂⟩

theorem ensureOrigin_eq (now : Time) (originKey : String) (s : Store) :
    ∃ T, s.ensureOrigin now originKey = { s with origins := T } := by
  unfold Store.ensureOrigin
  split
  · exact ⟨_, rfl⟩
  · exact ⟨s.origins, rfl⟩

/-! ## Submission -/

theorem insertUsageRows_ok {jobId : Uuid} {b : PUnit}
    {rows : List (Provider × Meter × {limit : ℚ // 0 ≤ limit})} {s s' : Store}
    (h : insertUsageRows jobId rows s = .ok (b, s')) :
    ∃ T, s' = { s with usage := T } ∧ ∀ u ∈ T, u ∈ s.usage ∨
      u.jobId = jobId ∧ u.reservedValue = 0 ∧ u.consumedValue = 0 := by
  induction rows generalizing s with
  | nil =>
      obtain ⟨-, rfl⟩ := pure_ok.mp h
      exact ⟨s.usage, rfl, fun u hu => Or.inl hu⟩
  | cons row rows ih =>
      obtain ⟨provider, meter, limit⟩ := row
      simp only [insertUsageRows, bind_ok, attempt_ok] at h
      obtain ⟨_, s₁, h₁, h₂⟩ := h
      obtain ⟨T₁, hT₁, rfl⟩ := Option.map_eq_some_iff.mp h₁
      obtain ⟨T₂, rfl, hT₂⟩ := ih h₂
      refine ⟨T₂, rfl, fun u hu => ?_⟩
      rcases hT₂ u hu with hold | hnew
      · rcases (Table.mem_of_insert? hT₁).mp hold with hold | rfl
        · exact Or.inl hold
        · exact Or.inr ⟨rfl, rfl, rfl⟩
      · exact Or.inr hnew

theorem submitJob_trace {ok : Event → Prop} (hok : ok .ordinary) {url : UrlIdentity} {x : Txn}
    {config : CrawlConfig} {key : Option String} {s s' : Store} {id : Uuid}
    (h : submitJob url x config key s = .ok (id, s')) : Trace Action ok s s' := by
  simp only [submitJob, bind_ok, read_ok] at h
  obtain ⟨found, s₁, ⟨-, rfl⟩, h⟩ := h
  cases found with
  | some existing =>
      obtain ⟨-, rfl⟩ := pure_ok.mp h
      exact Trace.refl
  | none =>
      simp only [bind_ok, attempt_ok, exec_ok, pure_ok] at h
      obtain ⟨_, s₁, h₁, _, s₂, h₂, _, s₃, h₃, _, s₄, rfl, -, rfl⟩ := h
      obtain ⟨J, hJ, rfl⟩ := Option.map_eq_some_iff.mp h₁
      obtain ⟨U, rfl, hU⟩ := insertUsageRows_ok h₂
      obtain ⟨-, T, hT, rfl⟩ := insertTask_eq_some.mp h₃
      obtain ⟨O, hO⟩ := ensureOrigin_eq x.now (seedTask url x.now config (x.uuid 0) (x.uuid 1)).originKey
        { s with jobs := J, usage := U, tasks := T }
      rw [hO]
      refine Trace.single hok (.submit (submittedJob x.now config (x.uuid 0) key)
        (seedTask url x.now config (x.uuid 0) (x.uuid 1)) ?_)
      have hpages := config.limit_ok
      have hdepth := config.maxDepth_ok
      have hbytes := config.maxBytes_ok
      have hartifacts := config.maxArtifactBytes_ok
      exact
        { fresh := ⟨rfl, rfl⟩
          counters := ⟨rfl, rfl, rfl, rfl, rfl, rfl⟩
          budget := ⟨rfl, rfl, rfl, rfl, by simp only [submittedJob]; omega,
            by simp only [submittedJob]; omega⟩
          pages := ⟨hpages.1, hdepth.1⟩
          seed_job := rfl
          seed_place := ⟨rfl, rfl, rfl⟩
          seed_state := ⟨rfl, rfl, rfl, rfl⟩
          jobs := hJ, tasks := hT, leases := rfl, attempts := rfl, usage := hU }

/-! ## Cancellation -/

theorem cancelQueued_drained {now : Time} {jobId : Uuid} {s : Store} :
    s.tasks.Changed (fun t => t.jobId = jobId && t.state.queued) (Drained .cancelled)
      (cancelQueued now jobId s).tasks := by
  refine Table.Changed.of_update fun t _ _ => ?_
  exact Or.inr rfl

/-- Cancelling the queued tasks and counting them is a drain. -/
theorem cancelQueued_drains {now : Time} {jobId : Uuid} {s s' : Store}
    (hjobs : s'.jobs = s.jobs.update (fun j => j.id = jobId) fun j =>
      { j with
        terminalCount := j.terminalCount +
          s.tasks.count fun t => t.jobId = jobId && t.state.queued })
    (htasks : s'.tasks = (cancelQueued now jobId s).tasks)
    (hleases : s'.originLeases = s.originLeases) (hattempts : s'.attempts = s.attempts)
    (husage : s'.usage = s.usage) : Drains jobId .cancelled s s' where
  ends := Or.inr rfl
  jobs := by
    rw [hjobs]
    refine Table.Changed.of_update fun j _ _ => ?_
    simp [Job.To, Job.core, drainJob, TaskState.failed]
  tasks := htasks ▸ cancelQueued_drained
  leases := hleases
  attempts := hattempts
  usage := husage

/-- The flag `request_cancel` sets. -/
def flagJob (now : Time) (jobId : Uuid) (s : Store) : Store :=
  s.updateJobs (fun j => j.id = jobId) fun j =>
    { j with cancelRequestedAt := some (j.cancelRequestedAt.getD now) }

/-- The cancelled tasks are counted before the flag is set. -/
def countCancelled (jobId : Uuid) (n : ℤ) (s : Store) : Store :=
  s.updateJobs (fun j => j.id = jobId) fun j => { j with terminalCount := j.terminalCount + n }

/-- The job update of `request_cancel` counts, flags and closes. -/
theorem cancelJob_eq (now : Time) (jobId : Uuid) (n : ℤ) (s : Store) :
    cancelJob now jobId n s =
      closeCancelled now jobId (flagJob now jobId (countCancelled jobId n s)) := by
  simp only [cancelJob, closeCancelled, flagJob, countCancelled, Store.updateJobs]
  rw [Table.update_update, Table.update_update]
  · congr 1
    apply Table.ext
    simp only [Table.update]
    refine List.map_congr_left fun j _ => ?_
    split
    · show _ = closeRow now (s.hasLeased jobId) _
      cases s.hasLeased jobId <;> rfl
    · rfl
  · intro j; rfl
  · intro j; rfl

theorem not_queued_cancelQueued {now : Time} {jobId : Uuid} {s : Store} :
    ∀ t ∈ (cancelQueued now jobId s).tasks, t.jobId = jobId → t.state.queued = false := by
  intro t ht hjob
  simp only [cancelQueued, Store.updateTasks, Table.mem_update] at ht
  obtain ⟨r, -, rfl⟩ := ht
  by_cases hr : (decide (r.jobId = jobId) && r.state.queued) = true
  · rw [if_pos hr]
    rfl
  · rw [if_neg hr] at hjob ⊢
    simp only [Bool.and_eq_true, decide_eq_true_eq, not_and, Bool.not_eq_true] at hr
    exact hr hjob

/-- Cancelling a job that has not ended: what is queued is cancelled, the job
flagged, and closed if nothing is leased. -/
theorem cancelJob_trace {ok : Event → Prop} (hok : ok .ordinary) {now : Time} {job : Job}
    {s : Store} {n : ℤ} (ids : List Uuid) (hjob : job ∈ s.jobs)
    (hactive : job.state.terminal = false)
    (hn : n = s.tasks.count fun t => t.jobId = job.id && t.state.queued) :
    Trace Action ok s
      (cancelJob now job.id n (cancelSessions ids (cancelQueued now job.id s))) := by
  have hdrain : Drains job.id .cancelled s
      (countCancelled job.id n (cancelSessions ids (cancelQueued now job.id s))) :=
    hn ▸ cancelQueued_drains rfl rfl rfl rfl rfl
  have hactive' : ∀ j ∈ (countCancelled job.id n
      (cancelSessions ids (cancelQueued now job.id s))).jobs,
      j.id = job.id → j.state.terminal = false := by
    intro j hj hid
    simp only [countCancelled, Store.updateJobs, Table.mem_update] at hj
    obtain ⟨j₀, hj₀, rfl⟩ := hj
    have hid₀ : j₀.id = job.id := by
      split at hid <;> simpa using hid
    obtain rfl := job_eq_of_id hj₀ hjob hid₀
    simpa using hactive
  have hflag : ∀ s : Store, s.jobs.Changed (fun j => j.id = job.id) (Job.To fun j =>
      { j with cancelRequestedAt := some (j.cancelRequestedAt.getD now) })
      (flagJob now job.id s).jobs := fun s => by
    refine Table.Changed.of_update fun j _ _ => ?_
    rfl
  rw [cancelJob_eq]
  refine (Trace.single hok (.drain job.id .cancelled hdrain)).trans ?_
  refine Trace.trans ?_ (closeCancelled_trace hok ..)
  exact Trace.single hok (.flag job.id now
    ⟨not_queued_cancelQueued, hactive', hflag _, rfl, rfl, rfl, rfl⟩)

theorem requestCancel_trace {ok : Event → Prop} (hok : ok .ordinary) {x : Txn} {jobId : Uuid}
    {s s' : Store} {b : Bool} (h : requestCancel x jobId s = .ok (b, s')) :
    Trace Action ok s s' := by
  simp only [requestCancel, bind_ok, read_ok] at h
  obtain ⟨found, s₁, ⟨hfound, rfl⟩, h⟩ := h
  cases found with
  | none =>
      obtain ⟨-, rfl⟩ := pure_ok.mp h
      exact Trace.refl
  | some job =>
      obtain ⟨hjob, rfl⟩ := Store.job?_eq_some.mp hfound
      simp only at h
      split at h
      · obtain ⟨-, rfl⟩ := pure_ok.mp h
        exact Trace.refl
      · rename_i hactive
        simp only [bind_ok, read_ok, exec_ok, pure_ok] at h
        obtain ⟨cancelled, _, ⟨rfl, rfl⟩, _, _, rfl, _, _, rfl, _, _, rfl, _, s₂, h₂, -, rfl⟩ := h
        have hn : ((((s.tasks.select fun t => t.jobId = job.id && t.state.queued).map
            Task.id).length : ℕ) : ℤ) =
            s.tasks.count fun t => t.jobId = job.id && t.state.queued := by
          simp [Table.count]
        exact (cancelJob_trace hok _ hjob (by simpa using hactive) hn).trans
          (reconcileAbandoned_trace hok h₂)

/-! ## Finalization -/

/-- Draining an expired job cancels its queued tasks and counts them. -/
theorem expireQueued_drains (now : Time) (jobId : Uuid) (s : Store) :
    Drains jobId .cancelled s (expireQueued now jobId s) := by
  have heq : expireQueued now jobId s = countCancelled jobId
      (s.tasks.count fun t => t.jobId = jobId && t.state.queued) (cancelQueued now jobId s) := by
    simp only [expireQueued, countCancelled]
    split
    · rfl
    · rename_i hzero
      have hzero' : (s.tasks.count fun t => t.jobId = jobId && t.state.queued) = 0 := by
        simpa using hzero
      exact (Store.updateJobs_eq_self fun j _ _ => by simp [hzero']).symm
  rw [heq]
  exact cancelQueued_drains rfl rfl rfl rfl rfl

/-- The job rows an iteration of the finalizer finds after its deadline check. -/
def expireStep (now : Time) (job : Job) (s : Store) : Store :=
  if job.deadlineAt ≤ now then expireQueued now job.id s else s

theorem finalizeJob_eq (now : Time) (job : Job) (s : Store) :
    finalizeJob now job s =
      if (expireStep now job s).hasNonterminal job.id then expireStep now job s
      else closeJob now job (decide (job.deadlineAt ≤ now)) (expireStep now job s) := by
  by_cases h : job.deadlineAt ≤ now <;> simp [finalizeJob, expireStep, h]

/-- The deadline check leaves the job's row active and its flag alone. -/
theorem expireStep_trace {ok : Event → Prop} (hok : ok .ordinary) (now : Time) {job : Job}
    {s : Store} (hjob : job ∈ s.jobs) (hactive : job.state.terminal = false) :
    Trace Action ok s (expireStep now job s) ∧ ∃ j ∈ (expireStep now job s).jobs,
      j.id = job.id ∧ j.state.terminal = false ∧ j.cancelRequestedAt = job.cancelRequestedAt := by
  unfold expireStep
  split
  · have hdrain := expireQueued_drains now job.id s
    refine ⟨Trace.single hok (.drain job.id .cancelled hdrain), ?_⟩
    obtain ⟨j, hj, hkey, hto⟩ := hdrain.jobs.mem_new hjob
    refine ⟨j, hj, congrArg Prod.fst hkey, ?_⟩
    rcases hto with ⟨-, hto⟩ | ⟨-, rfl⟩
    · have hterminal := hto.get (fun j => j.state.terminal) Job.core_terminal
      exact ⟨hterminal.trans hactive, hto.get Job.cancelRequestedAt fun _ => rfl⟩
    · exact ⟨hactive, rfl⟩
  · exact ⟨Trace.refl, job, hjob, rfl, hactive, rfl⟩

theorem expireStep_keeps {now : Time} {job j : Job} {s : Store} (hj : j ∈ s.jobs)
    (hne : j.id ≠ job.id) : j ∈ (expireStep now job s).jobs := by
  unfold expireStep
  split
  · exact (expireQueued_drains now job.id s).jobs.mem_keep hj (by simpa using hne)
  · exact hj

/-- The final update of an iteration, on the drained job. -/
theorem closeJob_closes (now : Time) {job : Job} (expired : Bool) {s : Store}
    (hjob : ∃ j ∈ s.jobs, j.id = job.id ∧ j.state.terminal = false ∧
      j.cancelRequestedAt = job.cancelRequestedAt)
    (hdone : s.hasNonterminal job.id = false) :
    ∃ state, Closes job.id state s (closeJob now job expired s) := by
  obtain ⟨j, hj, hid, hactive, hflag⟩ := hjob
  refine ⟨finalState job.cancelRequestedAt.isSome expired (tally s job.id (· = .succeeded))
    (tally s job.id (· = .blockedRobots)) (tally s job.id TaskState.failed),
    Or.inr ⟨⟨j, hj, hid, hactive, expired, ?_⟩, Store.hasNonterminal_eq_false.mp hdone⟩,
    ?_, rfl, rfl, rfl, rfl⟩
  · rw [hflag]
  · refine Table.Changed.of_update fun j _ _ => ?_
    rfl

/-- One iteration of the finalizer on the current row of an active job. -/
theorem finalizeJob_trace {ok : Event → Prop} (hok : ok .ordinary) (now : Time) {job : Job}
    {s : Store} (hjob : job ∈ s.jobs) (hactive : job.state.terminal = false) :
    Trace Action ok s (finalizeJob now job s) := by
  obtain ⟨hexpire, hrow⟩ := expireStep_trace hok now hjob hactive
  rw [finalizeJob_eq]
  split
  · exact hexpire
  · rename_i hdone
    obtain ⟨state, hcloses⟩ := closeJob_closes now (decide (job.deadlineAt ≤ now)) hrow
      (by simpa using hdone)
    exact hexpire.trans (Trace.single hok (.close job.id state hcloses))

/-- An iteration leaves the rows of other jobs alone. -/
theorem finalizeJob_keeps {now : Time} {job j : Job} {s : Store} (hj : j ∈ s.jobs)
    (hne : j.id ≠ job.id) : j ∈ (finalizeJob now job s).jobs := by
  rw [finalizeJob_eq]
  split
  · exact expireStep_keeps hj hne
  · simp only [closeJob, Store.updateJobs, Table.mem_update]
    exact ⟨j, expireStep_keeps hj hne, by simp [hne]⟩

theorem finalizeAll_trace {ok : Event → Prop} (hok : ok .ordinary) (now : Time) {jobs : List Job}
    {s : Store} (hjobs : ∀ j ∈ jobs, j ∈ s.jobs ∧ j.state.terminal = false)
    (hdistinct : jobs.Pairwise fun a b => a.id ≠ b.id) :
    Trace Action ok s (jobs.foldl (fun s job => finalizeJob now job s) s) := by
  induction jobs generalizing s with
  | nil => exact Trace.refl
  | cons job jobs ih =>
      obtain ⟨hjob, hactive⟩ := hjobs job (by simp)
      obtain ⟨hne, hrest⟩ := List.pairwise_cons.mp hdistinct
      refine (finalizeJob_trace hok now hjob hactive).trans (ih (fun j hj => ?_) hrest)
      obtain ⟨hmem, hact⟩ := hjobs j (by simp [hj])
      exact ⟨finalizeJob_keeps hmem (hne j hj).symm, hact⟩

/-- The rows a pass of the finalizer reads, one for each of its jobs. -/
theorem finalizable_rows {x : Txn} {s : Store} :
    (∀ j ∈ s.jobs.select fun j => !j.state.terminal && !x.lockedJob j.id,
      j ∈ s.jobs ∧ j.state.terminal = false) ∧
    (s.jobs.select fun j => !j.state.terminal && !x.lockedJob j.id).Pairwise
      fun a b => a.id ≠ b.id := by
  refine ⟨fun j hj => ?_, ?_⟩
  · obtain ⟨hmem, hp⟩ := Table.mem_select.mp hj
    simp only [Bool.and_eq_true, Bool.not_eq_true'] at hp
    exact ⟨hmem, hp.1⟩
  · refine (s.jobs.unique.filter _).imp fun {a b} hab hid => ?_
    simp [Clashes, Keyed.clash, Keyed.key, hid] at hab

theorem finalizeJobs_trace {ok : Event → Prop} (hok : ok .ordinary) (x : Txn) (s : Store) :
    Trace Action ok s (finalizeJobs x s) :=
  finalizeAll_trace hok x.now finalizable_rows.1 finalizable_rows.2

/-! ## Populating a retry job -/

theorem insertRetries_trace {ok : Event → Prop} (hok : ok .ordinary) {url : UrlIdentity} {x : Txn}
    {config : CrawlConfig} {jobId : Uuid} (hpopulated : ok (.populated jobId))
    {rows : List String} {draw : ℕ} {sequence n : ℤ} {s s' : Store}
    (h : insertRetries url x config jobId rows draw sequence s = .ok (n, s')) :
    Trace Action ok s s' := by
  induction rows generalizing draw sequence s with
  | nil =>
      obtain ⟨-, rfl⟩ := pure_ok.mp h
      exact Trace.refl
  | cons original rows ih =>
      simp only [insertRetries, bind_ok, exec_ok] at h
      obtain ⟨_, s₁, rfl, inserted, s₂, h₂, h₃⟩ := h
      obtain ⟨O, hO⟩ := ensureOrigin_eq x.now (url.originKey (url.normalizeUrl original)) s
      rw [hO] at h₂
      have horigin : Trace Action ok s { s with origins := O } :=
        Frames.trace hok ⟨rfl, rfl, rfl, rfl, rfl⟩
      refine horigin.trans (Trace.trans ?_ (ih h₃))
      rcases insertTaskOnce_ok h₂ with ⟨-, rfl, -⟩ | ⟨-, hjob, T, hT, rfl⟩
      · exact Trace.refl
      · exact Trace.single hpopulated (.plant
          (retrySeed url x.now config jobId (x.uuid draw) original sequence)
          { job := hjob, state := ⟨rfl, rfl, rfl, rfl⟩, tasks := hT
            jobs := rfl, leases := rfl, attempts := rfl, usage := rfl })

theorem populateRetries_trace {ok : Event → Prop} (hok : ok .ordinary) {url : UrlIdentity} {x : Txn}
    {config : CrawlConfig} {jobId id : Uuid} (hpopulated : ok (.populated jobId))
    {rows : List String} {s s' : Store}
    (h : populateRetries url x config jobId rows s = .ok (id, s')) : Trace Action ok s s' := by
  simp only [populateRetries, bind_ok, exec_ok, pure_ok] at h
  obtain ⟨n, s₁, h₁, _, _, rfl, -, rfl⟩ := h
  refine (insertRetries_trace hok hpopulated h₁).trans (Trace.single hpopulated (.recount jobId n
    ⟨?_, rfl, rfl, rfl, rfl⟩))
  refine Table.Changed.of_update fun j _ _ => ?_
  rfl

end Lifecycle

end CrawlTrove
