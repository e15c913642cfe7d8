import CrawlTrove.Protocol.View

/-!
# The failure exits, written twice

`retry_task`, `fail_task` and `block_robots` have namesakes in `worker_api`.
A worker that reports on its own lease leaves the same tasks, counters and
origins through either half exactly when `FailureReport.AgreesOn` holds: the
core rejects leases of cancelled and expired jobs, drains a job at its failure
limit and lets the origin cool down, the worker protocol counts blocked tasks.
-/

namespace CrawlTrove

open Relational Transaction

open Lifecycle

namespace Protocol

/-! ## Reports -/

/-- The metadata of a page of which this many bytes were read. -/
def bytesRead (used : ℤ) : Metadata := { downloadedBytes := .value (some used) (some used) }

/-- How a lease ends in failure. -/
inductive FailureReport
  | retry (errorClass errorCode : String) (availableAt : Time) (used : ℤ)
  | fail (errorClass errorCode : String) (used : ℤ)
  | blockRobots (code : String)

/-- The report through the core. -/
def FailureReport.core (x : Txn) (taskId token : Uuid) : FailureReport → Tx Bool
  | .retry errorClass errorCode availableAt used =>
      retryTask x taskId token ⟨true, errorClass, errorCode⟩ availableAt (bytesRead used)
  | .fail errorClass errorCode used =>
      failTask x taskId token ⟨false, errorClass, errorCode⟩ (bytesRead used)
  | .blockRobots code => CrawlTrove.blockRobots x taskId token code

/-- The report through the worker protocol. -/
def FailureReport.remote (x : Txn) (role : String) (taskId token : Uuid) :
    FailureReport → Tx Bool
  | .retry errorClass errorCode availableAt used =>
      WorkerApi.retry x role taskId token errorClass errorCode availableAt (bytesRead used)
  | .fail errorClass errorCode used =>
      WorkerApi.fail x role taskId token errorClass errorCode (bytesRead used)
  | .blockRobots code => WorkerApi.blockRobots x role taskId token code

/-- Both halves leave the same tasks, counters and origins. -/
def FailuresAgree (x : Txn) (role : String) (taskId token : Uuid) (report : FailureReport)
    (s : Store) : Prop :=
  view (commit (report.core x taskId token) s).2 =
    view (commit (report.remote x role taskId token) s).2

/-! ## When they agree -/

/-- The job of the lease is neither cancelled nor expired. -/
def Current (now : Time) (f : FencedTask) : Prop :=
  f.job.cancelRequestedAt = none ∧ now < f.job.deadlineAt

instance (now : Time) (f : FencedTask) : Decidable (Current now f) :=
  inferInstanceAs (Decidable (_ ∧ _))

/-- One more failure makes the core drain queued siblings. -/
def Drains (f : FencedTask) (s : Store) : Prop :=
  f.job.config.maxFailures ≤ f.job.failedCount + 1 ∧ hasQueued f.task.jobId s = true

instance (f : FencedTask) (s : Store) : Decidable (Drains f s) :=
  inferInstanceAs (Decidable (_ ∧ _))

/-- The core can reject the lease: the ledger admits its open provider
attempts as consumed. -/
def Rejects (x : Txn) (f : FencedTask) (s : Store) : Prop :=
  ∃ s', rejectInactiveLease x f s = .ok (true, s')

/-- When a failure that ends the task agrees. -/
def FailAgreesOn (x : Txn) (f : FencedTask) (errorClass errorCode : String) (used : ℤ)
    (s : Store) : Prop :=
  ¬ Drains f s ∧
    (Current x.now f ∨
      -- The report says what the core says of an expired job.
      (f.job.cancelRequestedAt = none ∧ errorClass = "policy" ∧
        errorCode = "deadline_exceeded" ∧ WorkerApi.usedBytes f.task used = 0 ∧ Rejects x f s))

/-- When the two halves agree on a report about the lease `f`. -/
def FailureReport.AgreesOn (x : Txn) (f : FencedTask) (s : Store) : FailureReport → Prop
  | .retry errorClass errorCode availableAt used =>
      if f.task.maxAttempts ≤ f.task.attemptCount then
        FailAgreesOn x f errorClass errorCode used s
      else
        -- The core's cooldown must not move.
        Current x.now f ∧ ∀ o ∈ s.origins, o.originKey = f.task.originKey →
          greatest o.cooldownUntil (some availableAt) = o.cooldownUntil
  | .fail errorClass errorCode used => FailAgreesOn x f errorClass errorCode used s
  | .blockRobots _ => ¬ Current x.now f ∧ ¬ Rejects x f s

/-- An active worker reports on its own current lease. -/
structure OwnLease (role : String) (worker : Worker) (taskId token : Uuid) (f : FencedTask)
    (s : Store) : Prop where
  identified : WorkerApi.identity role false s = .ok (worker, s)
  fenced : s.fencedTask taskId token = some f
  owned : f.task.leaseOwner = some worker.id

/-! ## The rows of an exit -/

section Rows

variable {x : Txn} {f : FencedTask} {s : Store}

/-- The job row of a lease that ended. -/
def settledRow (t : Task) (used failed blocked : ℤ) (j : Job) : Job :=
  { j with
    reservedBytes := max 0 (j.reservedBytes - t.byteBudgetReserved)
    reservedArtifactBytes := max 0 (j.reservedArtifactBytes - t.artifactBudgetReserved)
    downloadedBytes := j.downloadedBytes + used
    terminalCount := j.terminalCount + 1
    failedCount := j.failedCount + failed
    blockedCount := j.blockedCount + blocked }

/-- The task row of a lease that ended. -/
def settledTask (now : Time) (state : TaskState) (errorClass errorCode : Option String)
    (t : Task) : Task :=
  { t.unlease with state, errorClass, errorCode, finishedAt := some now }

theorem key_settledTask (now : Time) (state : TaskState) (errorClass errorCode : Option String)
    (t : Task) : Keyed.key (settledTask now state errorClass errorCode t) = Keyed.key t := rfl

theorem key_settledRow (t : Task) (used failed blocked : ℤ) (j : Job) :
    Keyed.key (settledRow t used failed blocked j) = Keyed.key j := rfl

/-- What the end of a lease leaves for everyone to see. -/
def exitView (now : Time) (f : FencedTask) (state : TaskState)
    (errorClass errorCode : Option String) (used failed blocked : ℤ) (s : Store) :
    Table Task × List Job × Table Origin :=
  (s.tasks.update (fun t => t.id = f.task.id) (settledTask now state errorClass errorCode)
      (key_settledTask now state errorClass errorCode),
    counters (s.jobs.update (fun j => j.id = f.task.jobId)
      (settledRow f.task used failed blocked) (key_settledRow f.task used failed blocked)),
    s.origins)

theorem endLease_tasks (hf : Fenced s f) (state : TaskState) (errorClass errorCode : Option String)
    (outcome : String) (metadata : Metadata) (used : ℤ) :
    (endLease x.now f state errorClass errorCode outcome metadata used s).tasks =
      s.tasks.update (fun t => t.id = f.task.id) (settledTask x.now state errorClass errorCode)
        (key_settledTask x.now state errorClass errorCode) := by
  simp only [endLease, finishAttempt, chargeDownload_eq]
  exact Table.update_congr hf.fence_eq

theorem endLease_jobs (state : TaskState) (errorClass errorCode : Option String)
    (outcome : String) (metadata : Metadata) (used : ℤ) :
    (endLease x.now f state errorClass errorCode outcome metadata used s).jobs =
      s.jobs.update (fun j => j.id = f.task.jobId)
        (settledRow f.task used (if state = .permanentFailed then 1 else 0) 0)
        (key_settledRow f.task used _ 0) := by
  simp only [endLease, finishAttempt, chargeDownload_eq, countTerminal, releaseLease,
    terminalizeTask, Store.updateJobs, Store.updateTasks, Store.updateAttempts,
    Store.deleteOriginLeases]
  rw [Table.update_update, Table.update_update]
  · refine Table.update_inj.mpr fun j _ _ => ?_
    simp [settledRow]
  · intro j; rfl
  · intro j; rfl

theorem endLease_origins (state : TaskState) (errorClass errorCode : Option String)
    (outcome : String) (metadata : Metadata) (used : ℤ) :
    (endLease x.now f state errorClass errorCode outcome metadata used s).origins = s.origins := by
  simp only [endLease, finishAttempt, chargeDownload_eq]
  rfl

theorem view_endLease (hf : Fenced s f) (state : TaskState) (errorClass errorCode : Option String)
    (outcome : String) (metadata : Metadata) (used : ℤ) :
    view (endLease x.now f state errorClass errorCode outcome metadata used s) =
      exitView x.now f state errorClass errorCode used (if state = .permanentFailed then 1 else 0) 0
        s := by
  unfold view exitView
  rw [endLease_tasks hf, endLease_jobs, endLease_origins]

theorem failRows_jobs (errorClass errorCode : String) (used : ℤ) :
    (WorkerApi.failRows x f.task f.token errorClass errorCode used s).jobs =
      s.jobs.update (fun j => j.id = f.task.jobId) (settledRow f.task used 1 0)
        (key_settledRow f.task used 1 0) := by
  apply Table.ext
  refine List.map_congr_left fun j _ => ?_
  simp [settledRow]

theorem view_failRows (errorClass errorCode : String) (used : ℤ) :
    view (WorkerApi.failRows x f.task f.token errorClass errorCode used s) =
      exitView x.now f .permanentFailed (some errorClass) (some errorCode) used 1 0 s := by
  unfold view exitView
  rw [failRows_jobs]
  rfl

/-- Closing a cancelled job touches no counter. -/
theorem view_closeCancelled (now : Time) (jobId : Uuid) (s : Store) :
    view (closeCancelled now jobId s) = view s := by
  have hcounters : counters (closeCancelled now jobId s).jobs = counters s.jobs := by
    exact counters_update_self (f := closeRow now (s.hasLeased jobId)) (fun _ => rfl)
      fun j _ _ => rfl
  unfold view
  rw [hcounters]
  rfl

/-- A terminal exit that is no failure shows like the end of its lease. -/
theorem view_settleJobState {state : TaskState} (hstate : state ≠ .permanentFailed)
    (now : Time) (jobId : Uuid) (s : Store) :
    view (settleJobState now jobId state s) = view s := by
  unfold settleJobState
  rw [if_neg hstate]
  exact view_closeCancelled now jobId s

/-- The job of a failed lease as `_enforce_failure_limit` finds it. -/
theorem job?_failed (hf : Fenced s f) (errorClass errorCode : Option String) (outcome : String)
    (metadata : Metadata) (used : ℤ) :
    ∃ j, (closeCancelled x.now f.task.jobId
        (endLease x.now f .permanentFailed errorClass errorCode outcome metadata used s)).job?
          f.task.jobId = some j ∧
      j.config = f.job.config ∧ j.failedCount = f.job.failedCount + 1 := by
  let E := endLease x.now f .permanentFailed errorClass errorCode outcome metadata used s
  let row := settledRow f.task used 1 0 f.job
  have hrow : row ∈ E.jobs := by
    rw [endLease_jobs]
    exact Table.mem_update.mpr ⟨f.job, hf.job_mem, by simp [hf.job_id, row]⟩
  have hclosed : closeRow x.now (E.hasLeased f.task.jobId) row ∈
      (closeCancelled x.now f.task.jobId E).jobs :=
    Table.mem_update_row (p := fun j : Job => j.id = f.task.jobId)
      (f := closeRow x.now (E.hasLeased f.task.jobId)) (fun _ => rfl) hrow
      (decide_eq_true hf.job_id)
  exact ⟨_, Store.job?_eq_some.mpr ⟨hclosed, hf.job_id⟩, rfl, rfl⟩

/-- A failure through the core drains the job at its limit. -/
theorem settleFailed_eq (hf : Fenced s f) (errorClass errorCode : Option String)
    (outcome : String) (metadata : Metadata) (used : ℤ) :
    let E := endLease x.now f .permanentFailed errorClass errorCode outcome metadata used s
    settleJobState x.now f.task.jobId .permanentFailed E =
      if f.job.config.maxFailures ≤ f.job.failedCount + 1 then
        drainUnleased x.now f.task.jobId "max_failures_exceeded"
          (closeCancelled x.now f.task.jobId E)
      else closeCancelled x.now f.task.jobId E := by
  intro E
  obtain ⟨j, hjob, hconfig, hcount⟩ :=
    @job?_failed x f s hf errorClass errorCode outcome metadata used
  unfold settleJobState enforceFailureLimit
  rw [if_pos rfl, hjob, ← hconfig, ← hcount]

/-- Two exits of a lease show the same only if they are the same. -/
theorem exitView_inj (hf : Fenced s f) {state state' : TaskState}
    {errorClass errorClass' errorCode errorCode' : Option String}
    {used used' failed failed' blocked blocked' : ℤ} :
    exitView x.now f state errorClass errorCode used failed blocked s =
      exitView x.now f state' errorClass' errorCode' used' failed' blocked' s ↔
      (state = state' ∧ errorClass = errorClass' ∧ errorCode = errorCode') ∧
        used = used' ∧ failed = failed' ∧ blocked = blocked' := by
  have htasks : ∀ t : Task, settledTask x.now state errorClass errorCode t =
      settledTask x.now state' errorClass' errorCode' t ↔
        state = state' ∧ errorClass = errorClass' ∧ errorCode = errorCode' := by
    intro t
    simp [settledTask]
  have hjobs : ∀ j : Job, (settledRow f.task used failed blocked j).counters =
      (settledRow f.task used' failed' blocked' j).counters ↔
        used = used' ∧ failed = failed' ∧ blocked = blocked' := by
    intro j
    simp only [settledRow, Job.counters, Job.mk.injEq, true_and, and_true]
    omega
  unfold exitView
  rw [Prod.mk.injEq, Prod.mk.injEq, Table.update_inj, counters_update_inj]
  simp only [htasks, hjobs, decide_eq_true_eq, and_true]
  constructor
  · rintro ⟨ht, hj⟩
    exact ⟨ht f.task hf.mem rfl, hj f.job hf.job_mem hf.job_id⟩
  · rintro ⟨ht, hj⟩
    exact ⟨fun _ _ _ => ht, fun _ _ _ => hj⟩

/-- The siblings a drain would take are queued after the lease ended. -/
theorem mem_of_sibling (hf : Fenced s f) {s' : Store} {t : Task} {state : TaskState}
    {errorClass errorCode : Option String} {used failed blocked : ℤ} (ht : t ∈ s.tasks)
    (hqueued : t.state.queued = true)
    (hview : view s' = exitView x.now f state errorClass errorCode used failed blocked s) :
    t ∈ s'.tasks := by
  have htasks : s'.tasks = _ := congrArg Prod.fst hview
  rw [htasks]
  refine Table.mem_update_other (key_settledTask x.now state errorClass errorCode) ht
    (decide_eq_false fun hid => ?_)
  rw [task_eq_of_id ht hf.mem hid, hf.leased] at hqueued
  cases hqueued

/-- The lease that ended queues nothing. -/
theorem hasQueued_of_exit {jobId : Uuid} {s' : Store} {state : TaskState}
    {errorClass errorCode : Option String} {used failed blocked : ℤ} (hstate : state.queued = false)
    (hview : view s' = exitView x.now f state errorClass errorCode used failed blocked s)
    (h : hasQueued jobId s = false) : hasQueued jobId s' = false := by
  have htasks : s'.tasks = s.tasks.update _ _ (key_settledTask x.now state errorClass errorCode) :=
    congrArg Prod.fst hview
  refine Table.any_eq_false.mpr fun t ht => ?_
  rw [htasks] at ht
  obtain ⟨u, hu, rfl⟩ := Table.mem_update.mp ht
  split
  · show (_ && state.queued) = false
    rw [hstate, Bool.and_false]
  · exact Table.any_eq_false.mp h u hu

/-- A failure shows the same through both halves if it drains nothing and is
reported as it is. -/
theorem failed_view_iff (hf : Fenced s f) {errorClass errorCode errorClass' errorCode' : String}
    {outcome : String} {metadata : Metadata} {used used' : ℤ} :
    view (settleJobState x.now f.task.jobId .permanentFailed
        (endLease x.now f .permanentFailed (some errorClass) (some errorCode) outcome metadata
          used s)) =
      view (WorkerApi.failRows x f.task f.token errorClass' errorCode' used' s) ↔
      ¬ Drains f s ∧ errorClass = errorClass' ∧ errorCode = errorCode' ∧ used = used' := by
  let E := endLease x.now f .permanentFailed (some errorClass) (some errorCode) outcome metadata
    used s
  have hE : view (closeCancelled x.now f.task.jobId E) = _ :=
    (view_closeCancelled ..).trans
      (view_endLease hf .permanentFailed (some errorClass) (some errorCode) outcome metadata used)
  rw [settleFailed_eq hf]
  by_cases hdrains : Drains f s
  · obtain ⟨hlimit, hany⟩ := hdrains
    obtain ⟨t, ht, hp⟩ := Table.any_eq_true.mp hany
    simp only [Bool.and_eq_true, decide_eq_true_eq] at hp
    have hshows := @drainUnleased_shows x.now f.task.jobId "max_failures_exceeded" _ _ t
      (mem_of_sibling hf ht hp.2 hE) hp.1 hp.2
      (mem_of_sibling hf ht hp.2 (@view_failRows x f s errorClass' errorCode' used'))
    rw [if_pos hlimit]
    exact ⟨fun heq => absurd heq hshows, fun h => absurd ⟨hlimit, hany⟩ h.1⟩
  · have hkept : view (if f.job.config.maxFailures ≤ f.job.failedCount + 1 then
        drainUnleased x.now f.task.jobId "max_failures_exceeded"
          (closeCancelled x.now f.task.jobId E)
        else closeCancelled x.now f.task.jobId E) = view E := by
      split
      · rename_i hlimit
        have hnot : hasQueued f.task.jobId s = false := by
          simpa [Drains, hlimit] using hdrains
        have hnone := hasQueued_of_exit rfl hE hnot
        rw [drainUnleased_of_none hnone, view_closeCancelled]
      · exact view_closeCancelled ..
    rw [hkept, view_endLease hf, view_failRows, if_pos rfl, exitView_inj hf]
    simp [hdrains, and_assoc]

/-- The task row of a lease that waits for another attempt. -/
def requeuedTask (errorClass errorCode : String) (availableAt : Time) (t : Task) : Task :=
  { t.unlease with
    state := .retryWait
    availableAt
    errorClass := some errorClass
    errorCode := some errorCode }

/-- A retry through the core shows like one through the worker protocol if the
origin's cooldown stays. -/
theorem requeue_view_iff (hf : Fenced s f) (errorClass errorCode : String) (availableAt : Time)
    (used : ℤ) :
    view (requeue x f ⟨true, errorClass, errorCode⟩ availableAt (bytesRead used) s) =
      view (WorkerApi.requeueRows x f.task f.token errorClass errorCode availableAt
        (WorkerApi.usedBytes f.task used) s) ↔
      ∀ o ∈ s.origins, o.originKey = f.task.originKey →
        greatest o.cooldownUntil (some availableAt) = o.cooldownUntil := by
  let core := requeue x f ⟨true, errorClass, errorCode⟩ availableAt (bytesRead used) s
  let remote := WorkerApi.requeueRows x f.task f.token errorClass errorCode availableAt
    (WorkerApi.usedBytes f.task used) s
  have htasks : core.tasks = remote.tasks := by
    simp only [core, requeue, finishAttempt, chargeDownload_eq]
    exact @Table.update_congr _ _ _ _ _ (requeuedTask errorClass errorCode availableAt)
      (fun _ => rfl) hf.fence_eq
  have hjobs : core.jobs = remote.jobs := by
    simp only [core, requeue, finishAttempt, chargeDownload_eq]
    apply Table.ext
    refine Eq.trans List.map_map (List.map_congr_left fun j _ => ?_)
    by_cases hj : j.id = f.task.jobId
    · simp [hj, WorkerApi.charge, WorkerApi.usedBytes, actualBytes, bytesRead, ReportedInt.py?]
    · simp [hj]
  have horigins : core.origins = remote.origins ↔ ∀ o ∈ s.origins, o.originKey = f.task.originKey →
      greatest o.cooldownUntil (some availableAt) = o.cooldownUntil := by
    simp only [core, requeue, finishAttempt, chargeDownload_eq]
    let cooled (o : Origin) : Origin :=
      { o.recordFailure x.now errorClass availableAt with
        cooldownUntil := greatest o.cooldownUntil (some availableAt) }
    refine Iff.trans (@Table.update_inj _ _ (fun o : Origin => o.originKey = f.task.originKey) cooled
      (Origin.recordFailure x.now errorClass availableAt) s.origins (fun _ => rfl)
      (fun _ => rfl)) ?_
    simp [cooled, Origin.recordFailure]
  show (core.tasks, counters core.jobs, core.origins) = _ ↔ _
  rw [htasks, hjobs, ← horigins]
  show (remote.tasks, counters remote.jobs, core.origins) =
    (remote.tasks, counters remote.jobs, remote.origins) ↔ _
  simp

end Rows

/-! ## The core's side -/

section Core

variable {x : Txn} {f : FencedTask} {s s' : Store} {taskId token : Uuid}

theorem activeLease_current (hfence : s.fencedTask taskId token = some f)
    (hcurrent : Current x.now f) : activeLease x taskId token s = .ok (some f, s) := by
  obtain ⟨hcancel, htime⟩ := hcurrent
  have hpasses : rejectInactiveLease x f s = .ok (false, s) := by
    unfold rejectInactiveLease
    rw [if_neg (by simp [hcancel]), if_neg (not_le.mpr htime), pure_run]
  unfold activeLease
  rw [read_bind_run, hfence]
  show (rejectInactiveLease x f >>= _) s = _
  rw [bind_run_ok hpasses, if_neg Bool.false_ne_true, pure_run]

/-- A lease of a cancelled or expired job is rejected, if it can be. -/
theorem activeLease_stopped (hfence : s.fencedTask taskId token = some f)
    (hstopped : ¬ Current x.now f) :
    (∃ s', rejectInactiveLease x f s = .ok (true, s') ∧
        activeLease x taskId token s = .ok (none, s')) ∨
      ¬ Rejects x f s ∧ ∃ e, activeLease x taskId token s = .error e := by
  have hrun : activeLease x taskId token s = (rejectInactiveLease x f >>= fun rejected =>
      if rejected then pure none else pure (some f)) s := by
    unfold activeLease
    rw [read_bind_run, hfence]
  cases hreject : rejectInactiveLease x f s with
  | error e =>
      refine Or.inr ⟨?_, e, hrun.trans (bind_run_error hreject)⟩
      rintro ⟨s', h⟩
      rw [hreject] at h
      cases h
  | ok p =>
      obtain ⟨rejected, s'⟩ := p
      have htrue : rejected = true := by
        unfold rejectInactiveLease at hreject
        split at hreject
        · simp only [bind_ok, pure_ok] at hreject
          obtain ⟨_, _, _, _, _, _, h, -⟩ := hreject
          exact h.symm
        · rename_i hcancel
          split at hreject
          · simp only [bind_ok, pure_ok] at hreject
            obtain ⟨_, _, _, _, _, _, h, -⟩ := hreject
            exact h.symm
          · rename_i htime
            exact absurd ⟨by simpa using hcancel, not_le.mp htime⟩ hstopped
      subst htrue
      exact Or.inl ⟨s', rfl, by rw [hrun, bind_run_ok hreject, if_pos rfl, pure_run]⟩

/-- What a rejection does before it settles the ledger. -/
def rejection (x : Txn) (f : FencedTask) (s : Store) : Store :=
  if f.job.cancelRequestedAt.isSome then terminalize x.now f .cancelled none none s
  else terminalize x.now f .permanentFailed (some "policy") (some "deadline_exceeded") s

theorem view_rejected (hstopped : ¬ Current x.now f)
    (h : rejectInactiveLease x f s = .ok (true, s')) : view s' = view (rejection x f s) := by
  have hledger : ∀ only, Steps (Frame view) (reconcileAbandoned x only) :=
    fun only => Origins.reconcileAbandoned_frame (fun _ _ _ => rfl) x only
  unfold rejectInactiveLease at h
  unfold rejection
  split at h
  · rename_i hcancel
    obtain ⟨_, s₁, h₁, h⟩ := bind_ok.mp h
    obtain ⟨_, s₂, h₂, h⟩ := bind_ok.mp h
    obtain ⟨-, rfl⟩ := pure_ok.mp h
    obtain rfl := exec_ok.mp h₁
    rw [if_pos hcancel]
    exact hledger _ h₂
  · rename_i hcancel
    split at h
    · obtain ⟨_, s₁, h₁, h⟩ := bind_ok.mp h
      obtain ⟨_, s₂, h₂, h⟩ := bind_ok.mp h
      obtain ⟨-, rfl⟩ := pure_ok.mp h
      obtain rfl := exec_ok.mp h₁
      rw [if_neg hcancel]
      exact hledger _ h₂
    · rename_i htime
      exact absurd ⟨by simpa using hcancel, not_le.mp htime⟩ hstopped

/-- A report about a stopped job rejects the lease, or raises. -/
theorem core_stopped (report : FailureReport) (hfence : s.fencedTask taskId token = some f)
    (hstopped : ¬ Current x.now f) :
    (Rejects x f s ∧
        view (commit (report.core x taskId token) s).2 = view (rejection x f s)) ∨
      ¬ Rejects x f s ∧ view (commit (report.core x taskId token) s).2 = view s := by
  have hcommit : ∀ k : Option FencedTask → Tx Bool, k none = pure false →
      (Rejects x f s ∧
        view (commit (activeLease x taskId token >>= k) s).2 = view (rejection x f s)) ∨
      ¬ Rejects x f s ∧ view (commit (activeLease x taskId token >>= k) s).2 = view s := by
    intro k hk
    rcases activeLease_stopped hfence hstopped with ⟨s', hreject, hlease⟩ | ⟨hno, e, hlease⟩
    · have hrun : (activeLease x taskId token >>= k) s = .ok (false, s') := by
        rw [bind_run_ok hlease, hk, pure_run]
      rw [commit_of_ok hrun]
      exact Or.inl ⟨⟨s', hreject⟩, view_rejected hstopped hreject⟩
    · rw [commit_of_error (bind_run_error hlease)]
      exact Or.inr ⟨hno, rfl⟩
  cases report with
  | retry errorClass errorCode availableAt used => exact hcommit _ rfl
  | fail errorClass errorCode used => exact hcommit _ rfl
  | blockRobots code => exact hcommit _ rfl

/-- The rejected lease leaves a terminal task. -/
theorem rejection_row (hf : Fenced s f) :
    ∃ t ∈ (rejection x f s).tasks, t.id = f.task.id ∧
      (t.state = .cancelled ∨ t.state = .permanentFailed) := by
  have hrow : ∀ {s' : Store} {state errorClass errorCode used failed},
      view s' = exitView x.now f state errorClass errorCode used failed 0 s →
      settledTask x.now state errorClass errorCode f.task ∈ s'.tasks := by
    intro s' state errorClass errorCode used failed hview
    have htasks : s'.tasks = _ := congrArg Prod.fst hview
    rw [htasks]
    exact Table.mem_update_row (key_settledTask x.now state errorClass errorCode) hf.mem
      (decide_eq_true rfl)
  unfold rejection
  split
  · have hview := (congrArg view (terminalize_eq x.now f .cancelled none none s)).trans
      ((view_settleJobState (by simp) ..).trans (view_endLease hf ..))
    exact ⟨_, hrow hview, rfl, Or.inl rfl⟩
  · rw [terminalize_eq, settleFailed_eq hf]
    let E := endLease x.now f .permanentFailed (some "policy") (some "deadline_exceeded")
      TaskState.permanentFailed.text { errorCode := some "deadline_exceeded" } 0 s
    have hE := hrow ((view_closeCancelled x.now f.task.jobId E).trans (view_endLease hf ..))
    refine ⟨settledTask x.now .permanentFailed (some "policy") (some "deadline_exceeded") f.task, ?_,
      rfl, Or.inr rfl⟩
    split
    · rw [drainUnleased_tasks]
      exact Table.mem_update_other (p := fun t : Task => t.jobId = f.task.jobId && t.state.queued)
        (f := drainTask x.now "max_failures_exceeded") (fun _ => rfl) hE (Bool.and_false _)
    · exact hE

end Core

/-! ## The worker's side -/

section Fences

variable {worker : Worker} {taskId token : Uuid} {f : FencedTask} {s : Store}

/-- The worker's fence finds the row of the core's. -/
theorem ownedTask_of_fenced (hfence : s.fencedTask taskId token = some f)
    (howner : f.task.leaseOwner = some worker.id) :
    WorkerApi.ownedTask worker taskId token s = some f.task := by
  obtain ⟨hf, hid, htoken⟩ := Fenced.of_fencedTask hfence
  refine Table.find?_eq_of_mem hf.mem ?_ fun t ht hp => ?_
  · simp [hid, hf.leased, hf.token, htoken, howner]
  · simp only [Bool.and_eq_true, decide_eq_true_eq] at hp
    exact task_eq_of_id ht hf.mem (hp.1.1.1.trans hid.symm)

theorem activeTask_of_fenced (hfence : s.fencedTask taskId token = some f)
    (howner : f.task.leaseOwner = some worker.id) (now : Time) :
    WorkerApi.activeTask now worker taskId token s = if Current now f then some f else none := by
  obtain ⟨hf, -, htoken⟩ := Fenced.of_fencedTask hfence
  have hjob : s.job? f.task.jobId = some f.job := Store.job?_eq_some.mpr ⟨hf.job_mem, hf.job_id⟩
  have hlease : (⟨f.task, f.job, token⟩ : FencedTask) = f := by rw [← htoken]
  unfold WorkerApi.activeTask
  rw [ownedTask_of_fenced hfence howner]
  by_cases hcurrent : Current now f
  · obtain ⟨hcancel, htime⟩ := hcurrent
    simp [hjob, hlease, Current, hcancel, htime]
  · have hcurrent' := hcurrent
    unfold Current at hcurrent'
    simp [hjob, hcurrent, hcurrent']

end Fences

namespace OwnLease

variable {x : Txn} {role : String} {worker : Worker} {taskId token : Uuid} {f : FencedTask}
  {s : Store}

theorem fences (h : OwnLease role worker taskId token f s) :
    Fenced s f ∧ f.task.id = taskId ∧ f.token = token :=
  Fenced.of_fencedTask h.fenced

theorem ownedTask_eq (h : OwnLease role worker taskId token f s) :
    WorkerApi.ownedTask worker taskId token s = some f.task :=
  ownedTask_of_fenced h.fenced h.owned

theorem activeTask_eq (h : OwnLease role worker taskId token f s) (now : Time) :
    WorkerApi.activeTask now worker taskId token s = if Current now f then some f else none :=
  activeTask_of_fenced h.fenced h.owned now

/-- A report of a failure that ends the task. -/
theorem fail_run (h : OwnLease role worker taskId token f s) (errorClass errorCode : String)
    (used : ℤ) :
    WorkerApi.fail x role taskId token errorClass errorCode (bytesRead used) s =
      .ok (true, WorkerApi.failRows x f.task f.token errorClass errorCode
        (WorkerApi.usedBytes f.task used) s) := by
  obtain ⟨-, -, rfl⟩ := h.fences
  unfold WorkerApi.fail
  rw [bind_run_ok h.identified, read_bind_run, h.ownedTask_eq]
  rfl

theorem retry_run (h : OwnLease role worker taskId token f s) (errorClass errorCode : String)
    (availableAt : Time) (used : ℤ) :
    WorkerApi.retry x role taskId token errorClass errorCode availableAt (bytesRead used) s =
      .ok (true,
        if f.task.maxAttempts ≤ f.task.attemptCount then
          WorkerApi.failRows x f.task f.token errorClass errorCode
            (WorkerApi.usedBytes f.task used) s
        else WorkerApi.requeueRows x f.task f.token errorClass errorCode availableAt
          (WorkerApi.usedBytes f.task used) s) := by
  obtain ⟨-, -, rfl⟩ := h.fences
  have hcast : WorkerApi.castInt 0 (bytesRead used).downloadedBytes s = .ok (used, s) := rfl
  unfold WorkerApi.retry
  rw [bind_run_ok h.identified, read_bind_run, h.ownedTask_eq]
  dsimp only
  rw [bind_run_ok hcast]
  split
  · rfl
  · rfl

theorem blockRobots_run (h : OwnLease role worker taskId token f s) (code : String) :
    ∃ s' b, WorkerApi.blockRobots x role taskId token code s = .ok (b, s') ∧
      view s' = if Current x.now f then
        exitView x.now f .blockedRobots (some "policy") (some code) 0 0 1 s else view s := by
  obtain ⟨-, -, rfl⟩ := h.fences
  unfold WorkerApi.blockRobots
  rw [bind_run_ok h.identified, read_bind_run, h.activeTask_eq]
  split
  · refine ⟨_, _, rfl, ?_⟩
    refine Prod.ext rfl (Prod.ext (congrArg counters ?_) rfl)
    apply Table.ext
    refine List.map_congr_left fun j _ => ?_
    simp [settledRow]
  · exact ⟨_, _, rfl, rfl⟩

end OwnLease

/-! ## When they agree -/

section Agreement

variable {x : Txn} {role : String} {worker : Worker} {taskId token : Uuid} {f : FencedTask}
  {s : Store}

/-- A store in which the lease goes on does not look like its rejection. -/
theorem view_rejection_ne (hf : Fenced s f) {s' : Store} {t : Task} (ht : t ∈ s'.tasks)
    (hid : t.id = f.task.id) (hstate : t.state.terminal = false) :
    view (rejection x f s) ≠ view s' := by
  obtain ⟨u, hu, huid, hend⟩ := @rejection_row x f s hf
  refine view_ne_of_state hu ht (huid.trans hid.symm) fun heq => ?_
  rw [← heq] at hstate
  rcases hend with hend | hend <;> simp [hend, TaskState.terminal] at hstate

/-- A core operation on a current lease, or its rejection, against a failure
through the worker protocol. -/
theorem failed_agree_iff (hf : Fenced s f) {errorClass errorCode : String} {used : ℤ}
    {core : Store}
    (hcurrent : Current x.now f →
      core = failPermanently x f ⟨false, errorClass, errorCode⟩ (bytesRead used) s)
    (hstopped : ¬ Current x.now f →
      (Rejects x f s ∧ view core = view (rejection x f s)) ∨
        ¬ Rejects x f s ∧ view core = view s) :
    view core = view (WorkerApi.failRows x f.task f.token errorClass errorCode
        (WorkerApi.usedBytes f.task used) s) ↔ FailAgreesOn x f errorClass errorCode used s := by
  by_cases h : Current x.now f
  · have hfailed : core = settleJobState x.now f.task.jobId .permanentFailed
        (endLease x.now f .permanentFailed (some errorClass) (some errorCode) "failed"
          (bytesRead used) (WorkerApi.usedBytes f.task used) s) :=
      (hcurrent h).trans (charge_terminalize ..)
    rw [hfailed, failed_view_iff hf]
    simp [FailAgreesOn, h]
  · have hremote := @view_failRows x f s errorClass errorCode (WorkerApi.usedBytes f.task used)
    rcases hstopped h with ⟨hrejects, hview⟩ | ⟨hno, hview⟩
    · rw [hview]
      unfold rejection
      split
      · rename_i hcancel
        have hflag : f.job.cancelRequestedAt ≠ none := by
          intro hnone
          rw [hnone] at hcancel
          cases hcancel
        rw [terminalize_eq, view_settleJobState (by simp), view_endLease hf, hremote,
          exitView_inj hf]
        simp [FailAgreesOn, h, hflag]
      · rename_i hcancel
        rw [terminalize_eq, failed_view_iff hf]
        have hnone : f.job.cancelRequestedAt = none := by simpa using hcancel
        simp [FailAgreesOn, h, hnone, hrejects, eq_comm]
    · rw [hview]
      have hne : view s ≠ view (WorkerApi.failRows x f.task f.token errorClass errorCode
          (WorkerApi.usedBytes f.task used) s) := by
        have hrow : settledTask x.now .permanentFailed (some errorClass) (some errorCode) f.task ∈
            (WorkerApi.failRows x f.task f.token errorClass errorCode
              (WorkerApi.usedBytes f.task used) s).tasks :=
          Table.mem_update_row (key_settledTask x.now .permanentFailed _ _) hf.mem (decide_eq_true rfl)
        refine view_ne_of_state hf.mem hrow rfl ?_
        rw [hf.leased]
        simp [settledTask]
      simp [hne, FailAgreesOn, h, hno]

/-- A worker's report about its own lease leaves the same tasks, counters and
origins through both halves exactly when `AgreesOn` holds. -/
theorem failures_agree_iff (x : Txn) (role : String) (taskId token : Uuid)
    (report : FailureReport) (s : Store) (worker : Worker) (f : FencedTask)
    (h : OwnLease role worker taskId token f s) :
    FailuresAgree x role taskId token report s ↔ report.AgreesOn x f s := by
  obtain ⟨hf, -, -⟩ := h.fences
  have hlease := activeLease_current (x := x) h.fenced
  have hstopped := core_stopped (x := x) report h.fenced
  unfold FailuresAgree
  cases report with
  | fail errorClass errorCode used =>
      rw [show commit (FailureReport.remote x role taskId token (.fail errorClass errorCode used)) s
        = _ from commit_of_ok (h.fail_run ..)]
      refine failed_agree_iff hf (fun hcurrent => ?_) hstopped
      have hrun : failTask x taskId token ⟨false, errorClass, errorCode⟩ (bytesRead used) s =
          .ok (true, failPermanently x f ⟨false, errorClass, errorCode⟩ (bytesRead used) s) := by
        unfold failTask
        rw [bind_run_ok (hlease hcurrent)]
        rfl
      exact congrArg Prod.snd (commit_of_ok hrun)
  | retry errorClass errorCode availableAt used =>
      rw [show commit (FailureReport.remote x role taskId token
        (.retry errorClass errorCode availableAt used)) s = _ from commit_of_ok (h.retry_run ..)]
      have hrun : Current x.now f →
          retryTask x taskId token ⟨true, errorClass, errorCode⟩ availableAt (bytesRead used) s =
            .ok (true, if f.task.maxAttempts ≤ f.task.attemptCount then
              failPermanently x f ⟨true, errorClass, errorCode⟩ (bytesRead used) s
              else requeue x f ⟨true, errorClass, errorCode⟩ availableAt (bytesRead used) s) := by
        intro hcurrent
        unfold retryTask
        rw [bind_run_ok (hlease hcurrent)]
        dsimp only
        split
        · rfl
        · rfl
      unfold FailureReport.AgreesOn
      by_cases hlast : f.task.maxAttempts ≤ f.task.attemptCount
      · simp only [if_pos hlast] at hrun ⊢
        refine failed_agree_iff hf (fun hcurrent => ?_) hstopped
        exact congrArg Prod.snd (commit_of_ok (hrun hcurrent))
      · simp only [if_neg hlast] at hrun ⊢
        by_cases hcurrent : Current x.now f
        · rw [show commit (FailureReport.core x taskId token
            (.retry errorClass errorCode availableAt used)) s = _ from commit_of_ok (hrun hcurrent),
            requeue_view_iff hf]
          simp [hcurrent]
        · have hrow : requeuedTask errorClass errorCode availableAt f.task ∈
              (WorkerApi.requeueRows x f.task f.token errorClass errorCode availableAt
                (WorkerApi.usedBytes f.task used) s).tasks :=
            Table.mem_update_row (f := requeuedTask errorClass errorCode availableAt) (fun _ => rfl)
              hf.mem (decide_eq_true rfl)
          simp only [hcurrent, false_and, iff_false]
          rcases hstopped hcurrent with ⟨-, hview⟩ | ⟨-, hview⟩
          · rw [hview]
            exact view_rejection_ne hf hrow rfl rfl
          · rw [hview]
            refine view_ne_of_state hf.mem hrow rfl ?_
            rw [hf.leased]
            simp [requeuedTask]
  | blockRobots code =>
      obtain ⟨s', b, hrun, hview⟩ := h.blockRobots_run (x := x) code
      rw [show commit (FailureReport.remote x role taskId token (.blockRobots code)) s = _ from
        commit_of_ok hrun]
      show _ = view s' ↔ ¬ Current x.now f ∧ ¬ Rejects x f s
      rw [hview]
      by_cases hcurrent : Current x.now f
      · have hcore : CrawlTrove.blockRobots x taskId token code s =
            .ok (true, terminalize x.now f .blockedRobots (some "policy") (some code) s) := by
          unfold CrawlTrove.blockRobots
          rw [bind_run_ok (hlease hcurrent)]
          rfl
        rw [show commit (FailureReport.core x taskId token (.blockRobots code)) s = _ from
          commit_of_ok hcore, if_pos hcurrent, terminalize_eq, view_settleJobState (by simp),
          view_endLease hf, exitView_inj hf]
        simp [hcurrent]
      · rw [if_neg hcurrent]
        rcases hstopped hcurrent with ⟨hrejects, hview⟩ | ⟨hno, hview⟩
        · rw [hview]
          have hne : view (rejection x f s) ≠ view s :=
            view_rejection_ne hf hf.mem rfl (by rw [hf.leased]; rfl)
          simp [hne, hrejects]
        · rw [hview]
          simp [hcurrent, hno]

end Agreement

/-! ## Samples -/

/-- The seed of a crawl is leased to the enrolled worker under token 11. -/
def leasedRemotely : Store :=
  run Sample.identity {} [Sample.enrol, Sample.submit, Sample.remoteClaim]

def reportTxn : Txn := { now := seconds 2, uuid := fun n => 21 + n }

theorem failures_agree_fail :
    FailuresAgree reportTxn "worker_edge" 2 11 (.fail "extraction" "empty" 100)
      leasedRemotely := by
  have hlease : ∃ worker f, OwnLease "worker_edge" worker 2 11 f leasedRemotely ∧
      FailAgreesOn reportTxn f "extraction" "empty" 100 leasedRemotely := by
    refine ⟨_, _, ⟨rfl, rfl, rfl⟩, ?_, Or.inl ?_⟩
    · decide
    · decide
  obtain ⟨worker, f, hlease, hagrees⟩ := hlease
  exact (failures_agree_iff reportTxn "worker_edge" 2 11 (.fail "extraction" "empty" 100)
    leasedRemotely worker f hlease).mpr hagrees

/-- After a timeout the core lets the origin cool down, the worker protocol
does not. -/
theorem failures_differ_retry :
    ¬ FailuresAgree reportTxn "worker_edge" 2 11 (.retry "transport" "timeout" (seconds 7) 0)
      leasedRemotely := by
  intro h
  have hcooldown := congrArg (fun v => v.2.2.rows.map Origin.cooldownUntil) h
  revert hcooldown
  decide

example : leasedRemotely.tasks.rows.map Task.state = [.leased] := by decide +kernel

end Protocol

end CrawlTrove
