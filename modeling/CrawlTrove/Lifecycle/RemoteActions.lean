import CrawlTrove.Lifecycle.SessionActions

/-!
# The remote protocol as actions

Each protocol function identifies its worker, finds the worker's own lease and
then writes rows of its own rather than through the core's helpers. `retry` and
`release` find a lease without asking whether its job is cancelled.
-/

namespace CrawlTrove

open Relational Transaction

namespace Lifecycle

/-! ## Identity and fences -/

theorem identity_ok {role : String} {draining : Bool} {s s' : Store} {w : Worker}
    (h : WorkerApi.identity role draining s = .ok (w, s')) : s' = s := by
  simp only [WorkerApi.identity, bind_ok, read_ok] at h
  obtain ⟨found, _, ⟨-, rfl⟩, h⟩ := h
  cases found with
  | none => simp at h
  | some worker => exact (pure_ok.mp h).2.symm

theorem ownedTask_ok {worker : Worker} {taskId token : Uuid} {s : Store} {t : Task}
    (h : WorkerApi.ownedTask worker taskId token s = some t) :
    Holds s t token ∧ t.id = taskId := by
  obtain ⟨hmem, hp⟩ := Table.find?_eq_some h
  simp only [Bool.and_eq_true, decide_eq_true_eq] at hp
  exact ⟨⟨hmem, hp.1.1.2, hp.1.2⟩, hp.1.1.1⟩

theorem activeTask_ok {now : Time} {worker : Worker} {taskId token : Uuid} {s : Store}
    {f : FencedTask} (h : WorkerApi.activeTask now worker taskId token s = some f) :
    Active now s f ∧ f.task.id = taskId ∧ f.token = token := by
  unfold WorkerApi.activeTask at h
  split at h
  · cases h
  · rename_i task htask
    split at h
    · cases h
    · rename_i job hjob
      split at h
      · rename_i hactive
        obtain ⟨hholds, hid⟩ := ownedTask_ok htask
        obtain ⟨hj, hjid⟩ := Store.job?_eq_some.mp hjob
        simp only [Bool.and_eq_true, Option.isNone_iff_eq_none, decide_eq_true_eq] at hactive
        cases h
        exact ⟨⟨⟨hholds, hj, hjid⟩, hactive.1, hactive.2⟩, hid, rfl⟩
      · cases h

/-! ## Claiming -/

theorem remote_grantLease_leases {x : Txn} {worker : Worker} {task : Task} {job : Job}
    {bytes artifacts : ℤ} {s s' : Store} {r : ClaimedTask}
    (hgrant : Grantable s task job bytes artifacts)
    (hstate : task.state = .pending ∨ task.state = .retryWait)
    (h : WorkerApi.grantLease x worker task job bytes artifacts s = .ok (r, s')) :
    Leases job task (x.uuid 0) bytes artifacts false s s' := by
  simp only [WorkerApi.grantLease, bind_ok, exec_ok, attempt_ok, pure_ok] at h
  obtain ⟨_, _, rfl, _, _, rfl, _, _, rfl, _, s₁, h₁, _, _, rfl, _, s₂, h₂, -, rfl⟩ := h
  obtain ⟨L, hL, rfl⟩ := Option.map_eq_some_iff.mp h₁
  obtain ⟨A, hA, rfl⟩ := Option.map_eq_some_iff.mp h₂
  refine
    { job := hgrant.job_ok, task := hgrant.task_mem, state := hstate
      bytes_ok := hgrant.bytes_ok, artifacts_ok := hgrant.artifacts_ok
      free := originLeased_eq_false.mp hgrant.free
      jobs := ?_
      tasks := ?_
      leases := ⟨_, rfl, rfl, rfl, hL⟩
      attempts := ⟨_, rfl, rfl, rfl, rfl, rfl, hA⟩
      usage := rfl }
  · rw [← hgrant.job_ok.2.1]
    exact reserve_start_changed ..
  · refine Table.Changed.of_update fun t _ _ => ?_
    rfl

theorem remote_claimPaced_trace {ok : Event → Prop} (hok : ok .ordinary) {x : Txn}
    {worker : Worker} {task : Task} {job : Job} {origin : Origin} {s s' : Store}
    {r : Option ClaimedTask}
    (hjob : job ∈ s.jobs ∧ job.id = task.jobId ∧ job.cancelRequestedAt = none)
    (htask : task ∈ s.tasks) (hstate : task.state = .pending ∨ task.state = .retryWait)
    (h : WorkerApi.claimPaced x worker task job origin s = .ok (r, s')) :
    Trace Action ok s s' := by
  unfold WorkerApi.claimPaced at h
  split at h
  · obtain ⟨-, rfl⟩ := pure_ok.mp h
    exact Trace.refl
  · simp only [bind_ok, read_ok] at h
    obtain ⟨leased, _, ⟨hleased, rfl⟩, h⟩ := h
    split at h
    · obtain ⟨-, rfl⟩ := pure_ok.mp h
      exact Trace.refl
    · rename_i hfree
      split at h
      · obtain ⟨-, rfl⟩ := pure_ok.mp h
        exact Trace.refl
      · rename_i hroom
        obtain ⟨granted, h₁, -⟩ := map_ok.mp h
        obtain ⟨hbytes, hartifacts⟩ := allowances_ok hroom
        exact Trace.single hok (.lease _ _ _ _ _ _ (remote_grantLease_leases
          ⟨hjob, htask, hbytes, hartifacts, by rw [hleased]; simpa using hfree⟩ hstate h₁))

theorem remote_claimLocked_trace {ok : Event → Prop} (hok : ok .ordinary) {x : Txn}
    {worker : Worker} {task : Task} {job : Job} {origin : Origin} {s s' : Store}
    {r : Option ClaimedTask}
    (hjob : job ∈ s.jobs ∧ job.id = task.jobId ∧ job.cancelRequestedAt = none)
    (htask : task ∈ s.tasks) (hstate : task.state = .pending ∨ task.state = .retryWait)
    (h : WorkerApi.claimLocked x worker task job origin s = .ok (r, s')) :
    Trace Action ok s s' := by
  unfold WorkerApi.claimLocked at h
  generalize (if origin.circuitState = .open' then _ else none : Option Time) = blocked at h
  cases blocked with
  | some blockedUntil =>
      simp only [bind_ok, exec_ok, pure_ok] at h
      obtain ⟨_, _, rfl, -, rfl⟩ := h
      exact deferTask_trace hok ..
  | none =>
      simp only at h
      split at h
      · simp at h
      · exact remote_claimPaced_trace hok hjob htask hstate h

theorem claim_trace {ok : Event → Prop} (hok : ok .ordinary) {x : Txn} {role : String}
    {capabilities : List String} {s s' : Store} {r : Option ClaimedTask}
    (h : WorkerApi.claim x role capabilities s = .ok (r, s')) : Trace Action ok s s' := by
  simp only [WorkerApi.claim, bind_ok] at h
  obtain ⟨worker, s₁, h₁, h⟩ := h
  obtain rfl := identity_ok h₁
  split at h
  · simp at h
  · simp only [bind_ok, read_ok] at h
    obtain ⟨found, _, ⟨hfound, rfl⟩, h⟩ := h
    cases found with
    | none =>
        obtain ⟨-, rfl⟩ := pure_ok.mp h
        exact Trace.refl
    | some task =>
        simp only [bind_ok, read_ok] at h
        obtain ⟨job, _, ⟨hjob, rfl⟩, h⟩ := h
        cases job with
        | none =>
            obtain ⟨-, rfl⟩ := pure_ok.mp h
            exact Trace.refl
        | some job =>
            simp only [bind_ok, read_ok] at h
            obtain ⟨origin, _, ⟨-, rfl⟩, h⟩ := h
            cases origin with
            | none =>
                obtain ⟨-, rfl⟩ := pure_ok.mp h
                exact Trace.refl
            | some origin =>
                obtain ⟨hmem, hstate, hactive⟩ := claimable_of_first hfound
                obtain ⟨hj, hid⟩ := Store.job?_eq_some.mp hjob
                exact remote_claimLocked_trace hok ⟨hj, hid, (hactive job hjob).1⟩ hmem hstate h

/-! ## Reports -/

/-- A report under the current lease settles it: the task, the permit, the job
and the attempt are written by one statement each. -/
theorem report_settles {now : Time} {t : Task} {token : Uuid} {set : Task → Task}
    {count : Job → Job} {outcome : String} {code : Option String} {cost : Cost}
    {downloaded artifacts : ℤ} {σ : TaskState} {s : Store}
    (hset : ∀ t, Keyed.key (set t) = Keyed.key t)
    (hcount : ∀ j, Keyed.key (count j) = Keyed.key j)
    (ht : Holds s t token) (hends : σ ≠ .leased ∧ σ ≠ .pending ∧ σ ≠ .waitingInput)
    (htasks : ∀ r : Task, Task.To (settleTask σ) r (set r.unlease))
    (hjobs : ∀ j, Job.To (settleJob t σ downloaded artifacts true) j (count
      { j with
        reservedBytes := max 0 (j.reservedBytes - t.byteBudgetReserved)
        reservedArtifactBytes := max 0 (j.reservedArtifactBytes - t.artifactBudgetReserved) }))
    (hcost : cost.downloadedBytes.getD 0 = downloaded ∧ cost.artifactBytes.getD 0 = artifacts)
    (hd : 0 ≤ t.byteBudgetReserved → 0 ≤ downloaded ∧ downloaded ≤ t.byteBudgetReserved)
    (ha : 0 ≤ t.artifactBudgetReserved →
      0 ≤ artifacts ∧ artifacts ≤ t.artifactBudgetReserved) :
    Settles t σ downloaded artifacts true s
      (WorkerApi.settleAttempt now t outcome code cost
        (WorkerApi.settleRows t token count hcount (WorkerApi.settleRow t.id set hset s))) where
  task := ⟨ht.mem, ht.leased⟩
  ends := ⟨hends.1, hends.2.1⟩
  downloaded_ok := hd
  artifacts_ok := ha
  counted_ok := by simp
  parked_ok := fun h => absurd h hends.2.2
  jobs := ⟨fun j => count
    { j with
      reservedBytes := max 0 (j.reservedBytes - t.byteBudgetReserved)
      reservedArtifactBytes := max 0 (j.reservedArtifactBytes - t.artifactBudgetReserved) },
    fun _ => hcount _, rfl, fun j _ _ => hjobs j⟩
  tasks := ⟨fun r => set r.unlease, fun _ => hset _, rfl, fun r _ _ => htasks r⟩
  leases := ht.releases
  attempts := by
    refine Table.Changed.of_update fun a _ _ => ?_
    exact ⟨rfl, rfl, rfl, rfl, rfl, fun _ => hcost.1, fun _ => hcost.2⟩
  usage := rfl

/-- What a report may charge. -/
theorem usedBytes_ok (t : Task) (reported : ℤ) (h : 0 ≤ t.byteBudgetReserved) :
    0 ≤ WorkerApi.usedBytes t reported ∧ WorkerApi.usedBytes t reported ≤ t.byteBudgetReserved := by
  unfold WorkerApi.usedBytes
  omega

theorem failRows_settles {x : Txn} {t : Task} {token : Uuid} {errorClass errorCode : String}
    {used : ℤ} {s : Store} (ht : Holds s t token)
    (hd : 0 ≤ t.byteBudgetReserved → 0 ≤ used ∧ used ≤ t.byteBudgetReserved) :
    Settles t .permanentFailed used 0 true s
      (WorkerApi.failRows x t token errorClass errorCode used s) := by
  refine report_settles _ _ ht (by simp) (fun r => rfl) (fun j => ?_) ⟨rfl, rfl⟩ hd
    fun h => ⟨le_refl 0, h⟩
  simp [Job.To, Job.core, settleJob, TaskState.terminal, TaskState.failed]

theorem requeueRows_settles {x : Txn} {t : Task} {token : Uuid} {errorClass errorCode : String}
    {availableAt : Time} {used : ℤ} {s : Store} (ht : Holds s t token)
    (hd : 0 ≤ t.byteBudgetReserved → 0 ≤ used ∧ used ≤ t.byteBudgetReserved) :
    Settles t .retryWait used 0 true s
      (WorkerApi.requeueRows x t token errorClass errorCode availableAt used s) := by
  have hsettles : Settles t .retryWait used 0 true s
      (WorkerApi.settleAttempt x.now t "retry" (some errorCode) { downloadedBytes := some used }
        (WorkerApi.settleRows t token (WorkerApi.charge used) (fun _ => rfl)
          (WorkerApi.settleRow t.id (fun t =>
            { t with
              state := .retryWait, availableAt, errorClass := some errorClass
              errorCode := some errorCode }) (fun _ => rfl) s))) := by
    refine report_settles _ _ ht (by simp) (fun r => rfl) (fun j => ?_) ⟨rfl, rfl⟩ hd
      fun h => ⟨le_refl 0, h⟩
    simp [Job.To, Job.core, WorkerApi.charge, settleJob, TaskState.terminal, TaskState.failed]
    rfl
  exact hsettles.frame ⟨rfl, rfl, rfl, rfl, rfl⟩

theorem releaseRows_settles {x : Txn} {t : Task} {token : Uuid} {s : Store}
    (ht : Holds s t token) :
    Settles t .retryWait 0 0 true s (WorkerApi.releaseRows x t token s) := by
  refine report_settles _ _ ht (by simp) (fun r => rfl) (fun j => ?_) ⟨rfl, rfl⟩
    (fun h => ⟨le_refl 0, h⟩) fun h => ⟨le_refl 0, h⟩
  simp [Job.To, Job.core, settleJob, TaskState.terminal, TaskState.failed]

theorem remote_blockRobots_trace {ok : Event → Prop} {x : Txn} {role : String}
    {taskId token : Uuid} {code : String} {s s' : Store} {b : Bool}
    (hblocked : ∀ worker f, WorkerApi.identity role false s = .ok (worker, s) →
      WorkerApi.activeTask x.now worker taskId token s = some f → ok (.blocked f.task true))
    (h : WorkerApi.blockRobots x role taskId token code s = .ok (b, s')) :
    Trace Action ok s s' := by
  simp only [WorkerApi.blockRobots, bind_ok, read_ok] at h
  obtain ⟨worker, s₁, h₁, found, _, ⟨hfound, rfl⟩, h⟩ := h
  obtain rfl := identity_ok h₁
  cases found with
  | none =>
      obtain ⟨-, rfl⟩ := pure_ok.mp h
      exact Trace.refl
  | some f =>
      obtain ⟨hf, hid, rfl⟩ := activeTask_ok hfound
      simp only [bind_ok, exec_ok, pure_ok] at h
      obtain ⟨_, _, rfl, _, _, rfl, _, _, rfl, -, rfl⟩ := h
      refine Trace.single (hblocked worker f h₁ hfound) (.settle _ f.task .blockedRobots 0 0 true
        (fun _ => rfl) (by simp) (by simp [TaskState.terminal]) ?_)
      refine report_settles _ _ hf.toHolds (by simp) (fun r => rfl) (fun j => ?_) ⟨rfl, rfl⟩
        (fun h => ⟨le_refl 0, h⟩) fun h => ⟨le_refl 0, h⟩
      simp [Job.To, Job.core, settleJob, TaskState.terminal, TaskState.failed]

theorem castInt_ok {default n : ℤ} {v : ReportedInt} {s s' : Store}
    (h : WorkerApi.castInt default v s = .ok (n, s')) : s' = s ∧ v.sql? default = some n := by
  unfold WorkerApi.castInt at h
  cases hv : v.sql? default with
  | none => simp [hv] at h
  | some m =>
      rw [hv] at h
      obtain ⟨rfl, rfl⟩ := pure_ok.mp h
      exact ⟨rfl, rfl⟩

/-- A permanent failure a worker reports. -/
theorem failRows_trace {ok : Event → Prop} (hok : ok .ordinary) {x : Txn} {t : Task}
    {token : Uuid} {errorClass errorCode : String} {reported : ℤ} {s : Store}
    (ht : Holds s t token) :
    Trace Action ok s (WorkerApi.failRows x t token errorClass errorCode
      (WorkerApi.usedBytes t reported) s) :=
  Trace.single hok (.settle _ _ _ _ _ _ (by simp) (by simp) (by simp [TaskState.terminal])
    (failRows_settles ht (usedBytes_ok t reported)))

theorem fail_trace {ok : Event → Prop} (hok : ok .ordinary) {x : Txn} {role : String}
    {taskId token : Uuid} {errorClass errorCode : String} {metadata : Metadata} {s s' : Store}
    {b : Bool}
    (h : WorkerApi.fail x role taskId token errorClass errorCode metadata s = .ok (b, s')) :
    Trace Action ok s s' := by
  simp only [WorkerApi.fail, bind_ok, read_ok] at h
  obtain ⟨worker, s₁, h₁, found, _, ⟨hfound, rfl⟩, h⟩ := h
  obtain rfl := identity_ok h₁
  cases found with
  | none =>
      obtain ⟨-, rfl⟩ := pure_ok.mp h
      exact Trace.refl
  | some t =>
      simp only [bind_ok, exec_ok, pure_ok] at h
      obtain ⟨reported, s₂, h₂, _, _, rfl, -, rfl⟩ := h
      obtain ⟨rfl, -⟩ := castInt_ok h₂
      exact failRows_trace hok (ownedTask_ok hfound).1

/-- Some row of the task's job asks for cancellation. -/
def Flagged (s : Store) (jobId : Uuid) : Prop :=
  ∃ j ∈ s.jobs, j.id = jobId ∧ j.cancelRequestedAt.isSome = true

/-- A lease goes back to the queue whether or not its job is cancelled. -/
theorem Settles.anyway_trace {ok : Event → Prop} (hok : ok .ordinary) {t : Task} {d a : ℤ}
    {s s' : Store} (hrequeued : Flagged s t.jobId → ok (.requeued t))
    (h : Settles t .retryWait d a true s s') : Trace Action ok s s' := by
  by_cases hflag : Flagged s t.jobId
  · exact Trace.single (hrequeued hflag)
      (.settle _ _ _ _ _ _ (by simp) (by simp) (fun _ => Or.inr rfl) h)
  · refine Trace.single hok (.settle _ _ _ _ _ _ (by simp) (by simp) (fun _ => Or.inl ?_) h)
    intro j hj hid
    by_contra hne
    exact hflag ⟨j, hj, hid, Option.isSome_iff_ne_none.mpr hne⟩

theorem retry_trace {ok : Event → Prop} (hok : ok .ordinary) {x : Txn} {role : String}
    {taskId token : Uuid} {errorClass errorCode : String} {availableAt : Time}
    {metadata : Metadata} {s s' : Store} {b : Bool}
    (hrequeued : ∀ worker t, WorkerApi.identity role false s = .ok (worker, s) →
      WorkerApi.ownedTask worker taskId token s = some t →
      (metadata.downloadedBytes.sql? 0).isSome = true → t.attemptCount < t.maxAttempts →
      Flagged s t.jobId → ok (.requeued t))
    (h : WorkerApi.retry x role taskId token errorClass errorCode availableAt metadata s =
      .ok (b, s')) : Trace Action ok s s' := by
  simp only [WorkerApi.retry, bind_ok, read_ok] at h
  obtain ⟨worker, s₁, h₁, found, _, ⟨hfound, rfl⟩, h⟩ := h
  obtain rfl := identity_ok h₁
  cases found with
  | none =>
      obtain ⟨-, rfl⟩ := pure_ok.mp h
      exact Trace.refl
  | some t =>
      obtain ⟨ht, -⟩ := ownedTask_ok hfound
      simp only [bind_ok] at h
      obtain ⟨reported, s₂, h₂, h⟩ := h
      obtain ⟨rfl, hcast⟩ := castInt_ok h₂
      split at h
      · simp only [bind_ok, exec_ok, pure_ok] at h
        obtain ⟨_, _, rfl, -, rfl⟩ := h
        exact failRows_trace hok ht
      · rename_i hattempts
        simp only [bind_ok, exec_ok, pure_ok] at h
        obtain ⟨_, _, rfl, -, rfl⟩ := h
        exact (requeueRows_settles ht (usedBytes_ok t reported)).anyway_trace hok
          (hrequeued worker t h₁ hfound (by simp [hcast]) (by simpa using hattempts))

theorem release_trace {ok : Event → Prop} (hok : ok .ordinary) {x : Txn} {role : String}
    {taskId token : Uuid} {s s' : Store} {b : Bool}
    (hrequeued : ∀ worker t, WorkerApi.identity role true s = .ok (worker, s) →
      WorkerApi.ownedTask worker taskId token s = some t → Flagged s t.jobId → ok (.requeued t))
    (h : WorkerApi.release x role taskId token s = .ok (b, s')) : Trace Action ok s s' := by
  simp only [WorkerApi.release, bind_ok, read_ok] at h
  obtain ⟨worker, s₁, h₁, found, _, ⟨hfound, rfl⟩, h⟩ := h
  obtain rfl := identity_ok h₁
  cases found with
  | none =>
      obtain ⟨-, rfl⟩ := pure_ok.mp h
      exact Trace.refl
  | some t =>
      obtain ⟨ht, -⟩ := ownedTask_ok hfound
      simp only [bind_ok, exec_ok, pure_ok] at h
      obtain ⟨_, _, rfl, -, rfl⟩ := h
      exact (releaseRows_settles ht).anyway_trace hok (hrequeued worker t h₁ hfound)

/-! ## Completions -/

theorem acceptsReport_ok {worker : Worker} {t : Task} {artifact : WorkerApi.ArtifactRef}
    {size reported : ℤ} (h : WorkerApi.acceptsReport worker t artifact size reported = true) :
    0 ≤ size ∧ size ≤ t.artifactBudgetReserved ∧ reported ≤ t.byteBudgetReserved := by
  simp only [WorkerApi.acceptsReport, Bool.and_eq_true, decide_eq_true_eq] at h
  exact ⟨h.1.1.2, h.1.2, h.2⟩

theorem completeRows_settles {x : Txn} {f : FencedTask} {used size : ℤ} {s : Store}
    (hf : Holds s f.task f.token)
    (hd : 0 ≤ f.task.byteBudgetReserved → 0 ≤ used ∧ used ≤ f.task.byteBudgetReserved)
    (ha : 0 ≤ f.task.artifactBudgetReserved →
      0 ≤ size ∧ size ≤ f.task.artifactBudgetReserved) :
    Settles f.task .succeeded used size true s (WorkerApi.completeRows x f used size s) where
  task := ⟨hf.mem, hf.leased⟩
  ends := by simp
  downloaded_ok := hd
  artifacts_ok := ha
  counted_ok := by simp
  parked_ok := by simp
  jobs := by
    refine Table.Changed.of_update fun j _ _ => ?_
    simp [Job.To, Job.core, WorkerApi.countSucceeded, settleJob, TaskState.terminal,
      TaskState.failed]
    rfl
  tasks := by
    refine Table.Changed.of_update fun t _ _ => ?_
    rfl
  leases := hf.releases
  attempts := by
    refine Table.Changed.of_update fun a _ _ => ?_
    exact ⟨rfl, rfl, rfl, rfl, rfl, fun _ => rfl, fun _ => rfl⟩
  usage := rfl

/-- The links of a completed page, one insert and one count after another. -/
theorem remote_insertLinks_trace {ok : Event → Prop} {x : Txn} {f : FencedTask}
    {links : List WorkerApi.RemoteLink} {draw : ℕ} {k : ℤ} {s s' : Store} {b : PUnit}
    (hok : ok (discoveryEvent f)) (hcancel : f.job.cancelRequestedAt = none)
    (hparent : Succeeded s f.task) (hjob : Counted s f k)
    (h : WorkerApi.insertLinks x f links draw s = .ok (b, s')) : Trace Action ok s s' := by
  induction links generalizing draw k s with
  | nil =>
      obtain ⟨-, rfl⟩ := pure_ok.mp h
      exact Trace.refl
  | cons link links ih =>
      simp only [WorkerApi.insertLinks, bind_ok, read_ok] at h
      obtain ⟨found, _, ⟨hfound, rfl⟩, h⟩ := h
      cases found with
      | none =>
          obtain ⟨-, rfl⟩ := pure_ok.mp h
          exact Trace.refl
      | some job =>
          simp only at h
          split at h
          · rename_i hscope
            simp only [WorkerApi.inScope, Bool.and_eq_true, decide_eq_true_eq] at hscope
            cases hurl : link.url with
            | none => simp [hurl] at h
            | some reported =>
                cases hdigest : link.sha256 with
                | none => simp [hurl, hdigest] at h
                | some digest =>
                    simp only [hurl, hdigest, bind_ok] at h
                    obtain ⟨inserted, s₁, h₁, h₂⟩ := h
                    obtain ⟨hj, hid⟩ := Store.job?_eq_some.mp hfound
                    rcases insertTaskOnce_ok h₁ with ⟨rfl, rfl, -⟩ | ⟨rfl, -, T, hT, rfl⟩
                    · exact ih hparent hjob h₂
                    · simp only [if_true, bind_ok, exec_ok] at h₂
                      obtain ⟨_, _, rfl, h₂⟩ := h₂
                      obtain ⟨j, hj', hjid, -, hdisc, hseq, hpages, hconfig, -⟩ := id hjob
                      obtain rfl := job_eq_of_id hj hj' (hid.trans hjid.symm)
                      have hchild : ChildOf f k (WorkerApi.discoveredTask x.now f (x.uuid draw)
                          reported digest job.nextDiscoverySeq) :=
                        ⟨rfl, hseq, rfl, rfl, rfl, rfl, rfl, rfl, rfl⟩
                      have hstep := discover_trace hok hparent hjob hcancel hchild
                        (by rw [← hdisc, ← hpages]; exact hscope.2) hscope.1.1.1 hT
                      refine hstep.trans (ih ?_ (hjob.bump T) h₂)
                      obtain ⟨p, hp, hrest⟩ := hparent
                      exact ⟨p, (Table.mem_of_insert? hT).mpr (Or.inl hp), hrest⟩
          · exact ih hparent hjob h

theorem complete_trace {ok : Event → Prop} (hok : ok .ordinary) {x : Txn} {role : String}
    {taskId token : Uuid} {artifact : WorkerApi.ArtifactRef} {report : WorkerApi.Report}
    {s s' : Store} {b : Bool}
    (hrevived : ∀ f, Active x.now s f → f.job.state.terminal = true → ok (.revived f.task.jobId))
    (h : WorkerApi.complete x role taskId token artifact report s = .ok (b, s')) :
    Trace Action ok s s' := by
  simp only [WorkerApi.complete, bind_ok, read_ok] at h
  obtain ⟨worker, s₁, h₁, found, _, ⟨hfound, rfl⟩, h⟩ := h
  obtain rfl := identity_ok h₁
  cases found with
  | none =>
      obtain ⟨-, rfl⟩ := pure_ok.mp h
      exact Trace.refl
  | some f =>
      obtain ⟨hf, -⟩ := activeTask_ok hfound
      simp only [bind_ok] at h
      obtain ⟨size, s₂, h₂, reported, s₃, h₃, h⟩ := h
      obtain ⟨rfl, -⟩ := castInt_ok h₂
      obtain ⟨rfl, -⟩ := castInt_ok h₃
      split at h
      · obtain ⟨-, rfl⟩ := pure_ok.mp h
        exact Trace.refl
      · rename_i haccepts
        obtain ⟨hsize, hsize', hreported⟩ := acceptsReport_ok (by simpa using haccepts)
        split at h
        · simp at h
        · simp only [bind_ok, read_ok] at h
          obtain ⟨_, _, ⟨-, rfl⟩, h⟩ := h
          split at h
          · obtain ⟨-, rfl⟩ := pure_ok.mp h
            exact Trace.refl
          · simp only [bind_ok, attempt_ok, exec_ok, pure_ok] at h
            obtain ⟨_, s₄, h₄, _, _, rfl, _, s₅, h₅, -, rfl⟩ := h
            obtain ⟨R, -, rfl⟩ := Option.map_eq_some_iff.mp h₄
            have hresult : Trace Action ok s₃ { s₃ with results := R } :=
              Frames.trace hok ⟨rfl, rfl, rfl, rfl, rfl⟩
            have hevent : ok (discoveryEvent f) := by
              unfold discoveryEvent
              split
              · exact hrevived f hf (by assumption)
              · exact hok
            have hf' : Fenced { s₃ with results := R } f :=
              ⟨⟨hf.mem, hf.leased, hf.token⟩, hf.job_mem, hf.job_id⟩
            have hsettles := completeRows_settles (x := x) hf'.toHolds
              (fun _ => ⟨le_max_left 0 reported, hreported⟩) fun _ => ⟨hsize, hsize'⟩
            have hsettle := Trace.single (R := Action) hok
              (.settle _ _ _ _ _ _ (by simp) (by simp) (by simp [TaskState.terminal]) hsettles)
            exact (hresult.trans hsettle).trans (remote_insertLinks_trace hevent hf.uncancelled
              hsettles.succeeded (hsettles.counted hf') h₅)

/-! ## Live sessions -/

theorem startLiveSession_trace {ok : Event → Prop} (hok : ok .ordinary) {x : Txn} {role : String}
    {taskId token : Uuid} {backend workerId code : String} {ttl : Option ℤ} {s s' : Store}
    {r : Option LiveSession}
    (h : WorkerApi.startLiveSession x role taskId token backend workerId ttl code s =
      .ok (r, s')) : Trace Action ok s s' := by
  simp only [WorkerApi.startLiveSession, bind_ok] at h
  obtain ⟨worker, s₁, h₁, h⟩ := h
  obtain rfl := identity_ok h₁
  split at h
  · simp at h
  · simp only [bind_ok, read_ok] at h
    obtain ⟨found, _, ⟨hfound, rfl⟩, h⟩ := h
    cases found with
    | none =>
        obtain ⟨-, rfl⟩ := pure_ok.mp h
        exact Trace.refl
    | some f =>
        obtain ⟨hf, -⟩ := activeTask_ok hfound
        simp only at h
        split at h
        · obtain ⟨-, rfl⟩ := pure_ok.mp h
          exact Trace.refl
        · simp only [bind_ok, attempt_ok, exec_ok, pure_ok] at h
          obtain ⟨_, s₂, h₂, _, _, rfl, -, rfl⟩ := h
          have hframe := insertSession_frames h₂
          exact (hframe.trace hok).trans (parkTask_trace hok (hf.frame hframe))

theorem waitForInput_trace {ok : Event → Prop} (hok : ok .ordinary) {x : Txn} {role : String}
    {taskId token : Uuid} {code : String} {s s' : Store} {b : Bool}
    (h : WorkerApi.waitForInput x role taskId token code s = .ok (b, s')) :
    Trace Action ok s s' := by
  simp only [WorkerApi.waitForInput, bind_ok, pure_ok] at h
  obtain ⟨worker, s₁, h₁, started, s₂, h₂, -, rfl⟩ := h
  obtain rfl := identity_ok h₁
  exact startLiveSession_trace hok h₂

theorem touchLiveSession_trace {ok : Event → Prop} (hok : ok .ordinary) {x : Txn} {role : String}
    {id : Uuid} {s s' : Store} {b : Bool}
    (h : WorkerApi.touchLiveSession x role id s = .ok (b, s')) : Trace Action ok s s' := by
  simp only [WorkerApi.touchLiveSession, bind_ok, read_ok, exec_ok, pure_ok] at h
  obtain ⟨worker, s₁, h₁, _, _, ⟨-, rfl⟩, _, _, rfl, -, rfl⟩ := h
  obtain rfl := identity_ok h₁
  exact Frames.trace hok ⟨rfl, rfl, rfl, rfl, rfl⟩

/-- The live session a worker closes, and the task that ends with it. -/
def closing (worker : Worker) (id : Uuid) (s : Store) : Option Task :=
  (s.sessions.find? fun l => l.id = id && l.workerId = some worker.id && l.state.live).bind
    fun l => (s.task? l.taskId).filter fun t => t.state = .waitingInput ||
      (t.state = .leased && t.leaseOwner = some worker.id)

theorem closeLiveSession_trace {ok : Event → Prop} (hok : ok .ordinary) {x : Txn} {role : String}
    {id : Uuid} {reason : CloseReason} {s s' : Store} {b : Bool}
    (huncounted : reason = none → ∀ worker t, WorkerApi.identity role true s = .ok (worker, s) →
      closing worker id s = some t → ok (.uncounted t))
    (h : WorkerApi.closeLiveSession x role id reason s = .ok (b, s')) : Trace Action ok s s' := by
  simp only [WorkerApi.closeLiveSession, bind_ok] at h
  obtain ⟨worker, s₁, h₁, h⟩ := h
  obtain rfl := identity_ok h₁
  split at h
  · simp at h
  rename_i haccepted
  simp only [bind_ok, read_ok] at h
  obtain ⟨found, _, ⟨hfound, rfl⟩, h⟩ := h
  cases found with
  | none =>
      obtain ⟨-, rfl⟩ := pure_ok.mp h
      exact Trace.refl
  | some session =>
      simp only [bind_ok, read_ok] at h
      obtain ⟨task, _, ⟨htask, rfl⟩, h⟩ := h
      cases task with
      | none =>
          simp only [bind_ok, exec_ok, pure_ok] at h
          obtain ⟨_, _, rfl, -, rfl⟩ := h
          exact setSession_trace hok ..
      | some task =>
          simp only at h
          split at h
          · simp only [bind_ok, exec_ok, pure_ok] at h
            obtain ⟨_, _, rfl, -, rfl⟩ := h
            exact setSession_trace hok ..
          · simp only [bind_ok, exec_ok, pure_ok] at h
            obtain ⟨_, _, rfl, _, _, rfl, -, rfl⟩ := h
            obtain ⟨hmem, -⟩ := Store.task?_eq_some.mp htask
            rw [remote_closeTask_eq]
            refine (closeTask_trace (fun hends => ?_) hmem).trans (setSession_trace hok ..)
            unfold closeEvent
            split
            · exact hok
            · rename_i hunknown
              -- The check lets only NULL past that is not one of the two reasons.
              have hnull : reason = none := by
                cases reason with
                | none => rfl
                | some text => simp [hunknown] at haccepted
              refine huncounted hnull worker task h₁ ?_
              unfold closing
              rw [hfound, Option.bind_some, htask]
              rcases hends with hparked | ⟨hleased, howned⟩
              · simp [Option.filter, hparked]
              · have howner : task.leaseOwner = some worker.id := of_decide_eq_true howned
                simp [Option.filter, hleased, howner]

/-- A resume never grants a lease to a worker: it finds nothing to resume, or
raises. -/
theorem remote_resumeLiveSession_ok {x : Txn} {role : String} {id : Uuid} {s s' : Store}
    {r : Option ClaimedTask} (h : WorkerApi.resumeLiveSession x role id s = .ok (r, s')) :
    r = none ∧ s' = s := by
  simp only [WorkerApi.resumeLiveSession, bind_ok, read_ok] at h
  obtain ⟨worker, s₁, h₁, found, _, ⟨-, rfl⟩, h⟩ := h
  obtain rfl := identity_ok h₁
  cases found with
  | none =>
      obtain ⟨rfl, rfl⟩ := pure_ok.mp h
      exact ⟨rfl, rfl⟩
  | some session =>
      simp only [bind_ok, read_ok] at h
      obtain ⟨task, _, ⟨-, rfl⟩, h⟩ := h
      cases task with
      | none =>
          obtain ⟨rfl, rfl⟩ := pure_ok.mp h
          exact ⟨rfl, rfl⟩
      | some task =>
          simp only at h
          split at h
          · obtain ⟨rfl, rfl⟩ := pure_ok.mp h
            exact ⟨rfl, rfl⟩
          · simp at h

theorem finishLiveSession_trace {ok : Event → Prop} (hok : ok .ordinary) {role : String}
    {id : Uuid} {s s' : Store} {b : Bool}
    (h : WorkerApi.finishLiveSession role id s = .ok (b, s')) : Trace Action ok s s' := by
  simp only [WorkerApi.finishLiveSession, bind_ok, read_ok, exec_ok, pure_ok] at h
  obtain ⟨worker, s₁, h₁, _, _, ⟨-, rfl⟩, _, _, ⟨-, rfl⟩, _, _, rfl, -, rfl⟩ := h
  obtain rfl := identity_ok h₁
  exact Frames.trace hok ⟨rfl, rfl, rfl, rfl, rfl⟩

/-! ## Provider attempts -/

theorem reserveProviderAttempt_trace {ok : Event → Prop} (hok : ok .ordinary) {x : Txn}
    {role : String} {taskId token : Uuid} {route : Route} {reserved : NativeValues}
    {s s' : Store} {r : Option Uuid}
    (hunread : ∀ worker f, WorkerApi.identity role false s = .ok (worker, s) →
      WorkerApi.activeTask x.now worker taskId token s = some f →
      s.attemptAllowed f.job.config taskId route = true → ¬reserved.Survives →
        ok (.unread f.task.jobId))
    (h : WorkerApi.reserveProviderAttempt x role taskId token route reserved s = .ok (r, s')) :
    Trace Action ok s s' := by
  simp only [WorkerApi.reserveProviderAttempt, bind_ok] at h
  obtain ⟨worker, s₁, h₁, h⟩ := h
  obtain rfl := identity_ok h₁
  cases hcost : nativeCost route reserved with
  | error message => simp [hcost] at h
  | ok cost =>
      simp only [hcost] at h
      split at h
      · simp at h
      · simp only [bind_ok, read_ok] at h
        obtain ⟨found, _, ⟨hfound, rfl⟩, h⟩ := h
        cases found with
        | none =>
            obtain ⟨-, rfl⟩ := pure_ok.mp h
            exact Trace.refl
        | some f =>
            obtain ⟨hf, hid, htoken⟩ := activeTask_ok hfound
            simp only [bind_ok, read_ok] at h
            obtain ⟨allowed, _, ⟨hallowed, rfl⟩, h⟩ := h
            split at h
            · obtain ⟨-, rfl⟩ := pure_ok.mp h
              exact Trace.refl
            · rename_i hcaps
              simp only [bind_ok, read_ok] at h
              obtain ⟨covered, _, ⟨-, rfl⟩, h⟩ := h
              split at h
              · obtain ⟨-, rfl⟩ := pure_ok.mp h
                exact Trace.refl
              · simp only [bind_ok, read_ok, pure_ok] at h
                obtain ⟨earlier, _, ⟨-, rfl⟩, _, s₂, h₂, _, s₃, h₃, -, rfl⟩ := h
                rw [← htoken] at h₃
                have hroom : s₁.attemptAllowed f.job.config f.task.id route = true := by
                  rw [hid, hallowed]
                  simpa using hcaps
                obtain ⟨a, ha, hreserved⟩ :=
                  reserve_ok hf.toFenced hroom (nativeCost_ok hcost) h₂ h₃
                -- the label says whether the amount is read again as it was reserved
                by_cases hsurvives : reserved.Survives
                · exact Trace.single hok (.reserve _ _ _ _ _
                    (fun hlost => absurd (survives_of_values hcost hreserved hsurvives) hlost) ha)
                · have hevent := hunread worker f h₁ hfound
                    (by simpa [hallowed] using hcaps) hsurvives
                  exact Trace.single hevent (.reserve _ _ _ _ _ (fun _ => rfl) ha)

/-- Meters the worker may not report have no amount. -/
theorem numeral_eq_zero {v : NativeValues} {route : Route} (h : v.keysWithin route = true) :
    ∀ m, m ∉ route.meters → v.numeral m = 0 := by
  intro m hm
  simp only [NativeValues.keysWithin, Bool.and_eq_true, List.all_eq_true, Bool.or_eq_true] at h
  have hmeter := h.2 m (Meter.mem_all m)
  have hnone : v.value m = none := by
    rcases hmeter with hnone | hmem
    · simpa using hnone
    · exact absurd (by simpa using hmem) hm
  simp [NativeValues.numeral, hnone]

theorem finishProviderAttempt_trace {ok : Event → Prop} (hok : ok .ordinary) {x : Txn}
    {role : String} {attemptId token : Uuid} {outcome : Option String} {actual : NativeValues}
    {estimated : Bool} {s s' : Store} {b : Bool}
    (h : WorkerApi.finishProviderAttempt x role attemptId token outcome actual estimated s =
      .ok (b, s')) : Trace Action ok s s' := by
  simp only [WorkerApi.finishProviderAttempt, bind_ok] at h
  obtain ⟨worker, s₁, h₁, h⟩ := h
  obtain rfl := identity_ok h₁
  split at h
  · simp at h
  · simp only [bind_ok, read_ok] at h
    obtain ⟨found, _, ⟨hfound, rfl⟩, h⟩ := h
    cases found with
    | none =>
        obtain ⟨-, rfl⟩ := pure_ok.mp h
        exact Trace.refl
    | some a =>
        obtain ⟨hmem, hmine⟩ := Table.find?_eq_some hfound
        simp only [Bool.and_eq_true, decide_eq_true_eq] at hmine
        simp only at h
        split at h
        · obtain ⟨-, rfl⟩ := pure_ok.mp h
          exact Trace.refl
        · rename_i hopen
          cases hroute : a.route with
          | none => simp [hroute] at h
          | some route =>
              simp only [hroute] at h
              split at h
              · simp at h
              · rename_i hkeys
                simp only [bind_ok, read_ok] at h
                obtain ⟨found, _, ⟨hactive, rfl⟩, h⟩ := h
                cases found with
                | none =>
                    obtain ⟨-, rfl⟩ := pure_ok.mp h
                    exact Trace.refl
                | some f =>
                    obtain ⟨hf, hid, -⟩ := activeTask_ok hactive
                    simp only at h
                    split at h
                    · simp at h
                    · simp only [bind_ok, pure_ok] at h
                      obtain ⟨_, s₂, h₂, -, rfl⟩ := h
                      have hout : Outstanding s₁ a :=
                        ⟨hmem, by simp [hmine.1.2], by simpa using hopen⟩
                      exact Trace.single hok (.consume a _ _ (settleAttempt_ok hout
                        ⟨hf.mem, hid⟩ hroute (fun _ _ _ => rfl)
                        (numeral_eq_zero (by simpa using hkeys)) h₂))

/-! ## Keeping a lease -/

theorem remote_heartbeat_trace {ok : Event → Prop} (hok : ok .ordinary) {x : Txn} {role : String}
    {taskId token : Uuid} {s s' : Store} {b : Bool}
    (h : WorkerApi.heartbeat x role taskId token s = .ok (b, s')) : Trace Action ok s s' := by
  simp only [WorkerApi.heartbeat, bind_ok, read_ok] at h
  obtain ⟨worker, s₁, h₁, found, _, ⟨-, rfl⟩, h⟩ := h
  obtain rfl := identity_ok h₁
  cases found with
  | none =>
      obtain ⟨-, rfl⟩ := pure_ok.mp h
      exact Trace.refl
  | some f =>
      simp only [bind_ok, exec_ok, read_ok] at h
      obtain ⟨_, _, rfl, _, _, rfl, -, rfl⟩ := h
      exact extendLease_trace hok ..

theorem remote_reserveBrowserNavigation_trace {ok : Event → Prop} (hok : ok .ordinary) {x : Txn}
    {role : String} {taskId token : Uuid} {s s' : Store} {b : Bool}
    (h : WorkerApi.reserveBrowserNavigation x role taskId token s = .ok (b, s')) :
    Trace Action ok s s' := by
  simp only [WorkerApi.reserveBrowserNavigation, bind_ok, read_ok] at h
  obtain ⟨worker, s₁, h₁, found, _, ⟨-, rfl⟩, h⟩ := h
  obtain rfl := identity_ok h₁
  cases found with
  | none =>
      obtain ⟨-, rfl⟩ := pure_ok.mp h
      exact Trace.refl
  | some f =>
      simp only [bind_ok, exec_ok, read_ok, pure_ok] at h
      obtain ⟨_, _, ⟨-, rfl⟩, _, _, rfl, -, rfl⟩ := h
      exact countPage_trace hok ..

theorem remote_storeRobots_trace {ok : Event → Prop} (hok : ok .ordinary) {x : Txn}
    {role originKey body : String} {s s' : Store} {b : Bool}
    (h : WorkerApi.storeRobots x role originKey body s = .ok (b, s')) : Trace Action ok s s' := by
  simp only [WorkerApi.storeRobots, bind_ok, read_ok] at h
  obtain ⟨worker, s₁, h₁, held, _, ⟨-, rfl⟩, h⟩ := h
  obtain rfl := identity_ok h₁
  split at h
  · simp only [bind_ok, exec_ok, read_ok, pure_ok] at h
    obtain ⟨_, _, ⟨-, rfl⟩, _, _, rfl, -, rfl⟩ := h
    exact Frames.trace hok ⟨rfl, rfl, rfl, rfl, rfl⟩
  · obtain ⟨-, rfl⟩ := pure_ok.mp h
    exact Trace.refl

/-! ## Enrolment -/

theorem register_trace {ok : Event → Prop} (hok : ok .ordinary) {role : String} {protocol : ℤ}
    {capabilities : List String} {s s' : Store} {r : WorkerState}
    (h : WorkerApi.register role protocol capabilities s = .ok (r, s')) :
    Trace Action ok s s' := by
  simp only [WorkerApi.register, bind_ok, read_ok] at h
  obtain ⟨found, _, ⟨-, rfl⟩, h⟩ := h
  cases found with
  | none =>
      obtain ⟨-, rfl⟩ := pure_ok.mp h
      exact Trace.refl
  | some worker =>
      simp only at h
      split at h
      · obtain ⟨-, rfl⟩ := pure_ok.mp h
        exact Trace.refl
      · split at h
        all_goals
          simp only [bind_ok, exec_ok, pure_ok] at h
          obtain ⟨_, _, rfl, -, rfl⟩ := h
          exact Frames.trace hok ⟨rfl, rfl, rfl, rfl, rfl⟩

theorem drain_trace {ok : Event → Prop} (hok : ok .ordinary) {role : String} {s s' : Store}
    {b : Bool} (h : WorkerApi.drain role s = .ok (b, s')) : Trace Action ok s s' := by
  simp only [WorkerApi.drain, bind_ok, read_ok, exec_ok, pure_ok] at h
  obtain ⟨_, _, ⟨-, rfl⟩, _, _, rfl, -, rfl⟩ := h
  exact Frames.trace hok ⟨rfl, rfl, rfl, rfl, rfl⟩

end Lifecycle

end CrawlTrove
