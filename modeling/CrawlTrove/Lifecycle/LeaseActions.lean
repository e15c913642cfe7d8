import CrawlTrove.Lifecycle.JobActions

/-!
# Lease transactions of the core as actions

Claiming, keeping, completing, retrying, failing, blocking and reaping leases,
each as the actions it commits.
-/

namespace CrawlTrove

open Relational Transaction

namespace Lifecycle

/-! ## Claiming -/

theorem originLeased_eq_false {s : Store} {originKey : String} :
    s.originLeased originKey = false ↔ ∀ l ∈ s.originLeases, l.originKey ≠ originKey := by
  simp [Store.originLeased, Table.any_eq_false]

/-- What a claim has established when it grants its lease. -/
structure Grantable (s : Store) (task : Task) (job : Job) (bytes artifacts : ℤ) : Prop where
  job_ok : job ∈ s.jobs ∧ job.id = task.jobId ∧ job.cancelRequestedAt = none
  task_mem : task ∈ s.tasks
  bytes_ok : 0 < bytes ∧ bytes ≤ job.remainingBytes
  artifacts_ok : 0 < artifacts ∧ artifacts ≤ job.remainingArtifacts
  free : s.originLeased task.originKey = false

/-- The budget and start updates of a claim reserve its allowances. -/
theorem reserve_start_changed (now : Time) (jobId : Uuid) (bytes artifacts : ℤ) (s : Store) :
    s.jobs.Changed (fun j => j.id = jobId) (Job.To (reserve bytes artifacts))
      (startJob now jobId (reserveBudget jobId bytes artifacts s)).jobs := by
  simp only [startJob, reserveBudget, Store.updateJobs]
  rw [Table.update_update]
  · refine Table.Changed.of_update fun j _ _ => ?_
    cases hstate : j.state <;> simp [Job.To, Job.core, reserve, JobState.terminal, hstate]
  · intro j; rfl

theorem grantLease_leases {x : Txn} {workerId : String} {task : Task} {job : Job}
    {bytes artifacts : ℤ} {s s' : Store} {r : ClaimedTask}
    (hgrant : Grantable s task job bytes artifacts)
    (hstate : task.state = .pending ∨ task.state = .retryWait)
    (h : grantLease x workerId task job bytes artifacts s = .ok (r, s')) :
    Leases job task (x.uuid 0) bytes artifacts false s s' := by
  simp only [grantLease, bind_ok, exec_ok, attempt_ok, pure_ok] at h
  obtain ⟨_, _, rfl, _, _, rfl, _, _, rfl, _, s₁, h₁, _, s₂, h₂, _, _, rfl, -, rfl⟩ := h
  obtain ⟨A, hA, rfl⟩ := Option.map_eq_some_iff.mp h₁
  obtain ⟨L, hL, rfl⟩ := Option.map_eq_some_iff.mp h₂
  refine
    { job := hgrant.job_ok, task := hgrant.task_mem, state := hstate
      bytes_ok := hgrant.bytes_ok, artifacts_ok := hgrant.artifacts_ok
      free := originLeased_eq_false.mp hgrant.free
      jobs := reserve_start_changed ..
      tasks := ?_
      leases := ⟨_, rfl, rfl, rfl, hL⟩
      attempts := ⟨_, rfl, rfl, rfl, rfl, rfl, hA⟩
      usage := rfl }
  refine Table.Changed.of_update fun t _ _ => ?_
  rfl

/-- The allowances a claim computes, when both are positive. -/
theorem allowances_ok {job : Job} {byteCap artifactCap : ℤ}
    (h : ¬(min job.remainingBytes byteCap ≤ 0 ∨ min job.remainingArtifacts artifactCap ≤ 0)) :
    (0 < min job.remainingBytes byteCap ∧
      min job.remainingBytes byteCap ≤ job.remainingBytes) ∧
    0 < min job.remainingArtifacts artifactCap ∧
      min job.remainingArtifacts artifactCap ≤ job.remainingArtifacts := by
  omega

theorem deferTask_trace {ok : Event → Prop} (hok : ok .ordinary) (taskId : Uuid) (until_ : Time)
    (s : Store) : Trace Action ok s (deferTask taskId until_ s) := by
  refine Trace.single hok (.idle (idle_updateTasks s ?_))
  intro t; rfl

theorem claimPaced_trace {ok : Event → Prop} (hok : ok .ordinary) {x : Txn} {workerId : String}
    {task : Task} {job : Job} {origin : Origin} {s s' : Store} {r : Option ClaimedTask}
    (hjob : job ∈ s.jobs ∧ job.id = task.jobId ∧ job.cancelRequestedAt = none)
    (htask : task ∈ s.tasks) (hstate : task.state = .pending ∨ task.state = .retryWait)
    (h : claimPaced x workerId task job origin s = .ok (r, s')) : Trace Action ok s s' := by
  unfold claimPaced at h
  split at h
  · simp only [bind_ok, exec_ok, pure_ok] at h
    obtain ⟨_, _, rfl, -, rfl⟩ := h
    exact deferTask_trace hok ..
  · simp only [bind_ok, read_ok] at h
    obtain ⟨leased, _, ⟨hleased, rfl⟩, h⟩ := h
    split at h
    · obtain ⟨-, rfl⟩ := pure_ok.mp h
      exact Trace.refl
    · rename_i hfree
      split at h
      · simp only [bind_ok, exec_ok, pure_ok] at h
        obtain ⟨_, _, rfl, -, rfl⟩ := h
        exact drainUnleased_trace hok ..
      · rename_i hroom
        obtain ⟨granted, h₁, -⟩ := map_ok.mp h
        obtain ⟨hbytes, hartifacts⟩ := allowances_ok hroom
        exact Trace.single hok (.lease _ _ _ _ _ _ (grantLease_leases
          ⟨hjob, htask, hbytes, hartifacts, by rw [hleased]; simpa using hfree⟩ hstate h₁))

theorem claimLocked_trace {ok : Event → Prop} (hok : ok .ordinary) {x : Txn} {workerId : String}
    {task : Task} {job : Job} {s s' : Store} {r : Option ClaimedTask}
    (hjob : job ∈ s.jobs ∧ job.id = task.jobId ∧ job.cancelRequestedAt = none)
    (htask : task ∈ s.tasks) (hstate : task.state = .pending ∨ task.state = .retryWait)
    (h : claimLocked x workerId task job s = .ok (r, s')) : Trace Action ok s s' := by
  simp only [claimLocked, bind_ok, exec_ok, read_ok] at h
  obtain ⟨_, _, rfl, origin, _, ⟨-, rfl⟩, h⟩ := h
  obtain ⟨O, hO⟩ := ensureOrigin_eq x.now task.originKey s
  rw [hO] at h
  have horigin : Trace Action ok s { s with origins := O } :=
    Frames.trace hok ⟨rfl, rfl, rfl, rfl, rfl⟩
  refine horigin.trans ?_
  cases origin with
  | none =>
      obtain ⟨-, rfl⟩ := pure_ok.mp h
      exact Trace.refl
  | some origin =>
      simp only at h
      generalize origin.blockedUntil.filter _ = blocked at h
      cases blocked with
      | some blockedUntil =>
        simp only [bind_ok, exec_ok, pure_ok] at h
        obtain ⟨_, _, rfl, -, rfl⟩ := h
        exact deferTask_trace hok ..
      | none =>
        simp only [bind_ok, exec_ok] at h
        obtain ⟨_, s₁, rfl, h⟩ := h
        have hframe : ∀ s : Store, Frames s
            (if origin.circuitState = .open' then halfOpen task.originKey s else s) := by
          intro s
          split <;> exact ⟨rfl, rfl, rfl, rfl, rfl⟩
        have hcircuit := hframe { s with origins := O }
        refine (hcircuit.trace hok).trans (claimPaced_trace hok ?_ ?_ hstate h)
        · rw [hcircuit.jobs]
          exact hjob
        · rw [hcircuit.tasks]
          exact htask

theorem firstInOrder_mem {tasks : List Task} {t : Task} (h : firstInOrder tasks = some t) :
    t ∈ tasks := by
  induction tasks generalizing t with
  | nil => cases h
  | cons u tasks ih =>
      simp only [firstInOrder] at h
      split at h
      · cases h
        simp
      · rename_i v hv
        split at h <;> cases h
        · exact List.mem_cons_of_mem _ (ih hv)
        · simp

/-- The row a claim locks. -/
theorem claimable_of_first {x : Txn} {capabilities : List String} {s : Store} {t : Task}
    (h : firstInOrder (s.tasks.select (s.claimable x capabilities)) = some t) :
    t ∈ s.tasks ∧ (t.state = .pending ∨ t.state = .retryWait) ∧
      ∀ j, s.job? t.jobId = some j → j.cancelRequestedAt = none ∧ x.now < j.deadlineAt := by
  obtain ⟨hmem, hp⟩ := Table.mem_select.mp (firstInOrder_mem h)
  simp only [Store.claimable, Bool.and_eq_true, Bool.or_eq_true, decide_eq_true_eq] at hp
  refine ⟨hmem, hp.1.1.1.1, fun j hj => ?_⟩
  have hlast := hp.2
  rw [hj] at hlast
  simpa using hlast

theorem claimTask_trace {ok : Event → Prop} (hok : ok .ordinary) {x : Txn} {workerId : String}
    {capabilities : List String} {s s' : Store} {r : Option ClaimedTask}
    (h : claimTask x workerId capabilities s = .ok (r, s')) : Trace Action ok s s' := by
  simp only [claimTask, bind_ok, read_ok] at h
  obtain ⟨found, _, ⟨hfound, rfl⟩, h⟩ := h
  cases found with
  | none =>
      obtain ⟨-, rfl⟩ := pure_ok.mp h
      exact Trace.refl
  | some task =>
      simp only [bind_ok, read_ok] at h
      obtain ⟨job, _, ⟨hjob, rfl⟩, h⟩ := h
      cases job with
      | none =>
          obtain ⟨-, rfl⟩ := pure_ok.mp h
          exact Trace.refl
      | some job =>
          simp only at h
          split at h
          · obtain ⟨-, rfl⟩ := pure_ok.mp h
            exact Trace.refl
          · rename_i hactive
            obtain ⟨hmem, hstate, -⟩ := claimable_of_first hfound
            obtain ⟨hj, hid⟩ := Store.job?_eq_some.mp hjob
            have hcancel : job.cancelRequestedAt = none := by
              have := not_or.mp hactive
              simpa using this.1
            exact claimLocked_trace hok ⟨hj, hid, hcancel⟩ hmem hstate h

/-! ## Keeping a lease -/

/-- Extending a lease moves only expiries. -/
theorem extendLease_trace {ok : Event → Prop} (hok : ok .ordinary) (p : Task → Bool)
    (q : OriginLease → Bool) (expiry : Time) (s : Store) :
    Trace Action ok s ((s.updateTasks p fun t =>
      { t with leaseExpiresAt := some expiry }).updateOriginLeases q fun l =>
      { l with expiresAt := expiry }) := by
  refine Trace.single hok (.idle
    { jobs := Table.Changed.refl fun _ _ _ => rfl
      tasks := ?_
      leases := ?_
      attempts := rfl
      usage := rfl })
  · refine (idle_updateTasks s ?_).tasks
    intro t; rfl
  · have hrows : s.originLeases.Changed q (fun l l' => l'.core = l.core)
        (s.originLeases.update q fun l => { l with expiresAt := expiry }) := by
      refine Table.Changed.of_update fun l _ _ => ?_
      rfl
    exact hrows.widen (fun _ _ _ => rfl) fun _ _ _ => rfl

theorem heartbeat_trace {ok : Event → Prop} (hok : ok .ordinary) {x : Txn} {taskId token : Uuid}
    {s s' : Store} {b : Bool} (h : heartbeat x taskId token s = .ok (b, s')) :
    Trace Action ok s s' := by
  simp only [heartbeat, bind_ok] at h
  obtain ⟨r, s₁, h₁, h⟩ := h
  rcases activeLease_ok hok h₁ with ⟨rfl, htrace⟩ | ⟨f, rfl, rfl, -⟩
  · obtain ⟨-, rfl⟩ := pure_ok.mp h
    exact htrace
  · simp only [bind_ok, exec_ok, read_ok] at h
    obtain ⟨_, _, rfl, _, _, rfl, -, rfl⟩ := h
    exact extendLease_trace hok ..

/-- Counting a browser page is not seen by the invariants. -/
theorem countPage_trace {ok : Event → Prop} (hok : ok .ordinary) (p : Job → Bool) (s : Store) :
    Trace Action ok s (s.updateJobs p fun j =>
      { j with browserPageCount := j.browserPageCount + 1 }) := by
  refine Trace.single hok (.idle (idle_updateJobs s ?_))
  intro j; rfl

theorem reserveBrowserNavigation_trace {ok : Event → Prop} (hok : ok .ordinary) {x : Txn}
    {taskId token : Uuid} {s s' : Store} {b : Bool}
    (h : reserveBrowserNavigation x taskId token s = .ok (b, s')) : Trace Action ok s s' := by
  simp only [reserveBrowserNavigation, bind_ok] at h
  obtain ⟨r, s₁, h₁, h⟩ := h
  rcases activeLease_ok hok h₁ with ⟨rfl, htrace⟩ | ⟨f, rfl, rfl, -⟩
  · obtain ⟨-, rfl⟩ := pure_ok.mp h
    exact htrace
  · simp only [bind_ok, exec_ok, read_ok, pure_ok] at h
    obtain ⟨_, _, ⟨-, rfl⟩, _, _, rfl, -, rfl⟩ := h
    exact countPage_trace hok ..

end Lifecycle

end CrawlTrove
