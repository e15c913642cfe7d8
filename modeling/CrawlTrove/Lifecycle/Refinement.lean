import CrawlTrove.Lifecycle.RemoteActions

/-!
# Transactions refine the actions

`step_trace`: whatever a transaction commits is a sequence of actions, and the
labels of these actions say what the transaction was. An invariant is thus
proved once for each action and holds along every run (`run_preserves`).
-/

namespace CrawlTrove

open Relational Transaction

namespace Lifecycle

/-! ## The transactions behind the labels -/

/-- `block_robots` of the core on a lease of an active job. -/
def Request.BlocksAtCore (r : Request) (s : Store) (t : Task) : Prop :=
  ∃ taskId token code f, r.call = .blockRobots taskId token code ∧
    s.fencedTask taskId token = some f ∧ f.job.cancelRequestedAt = none ∧
    r.txn.now < f.job.deadlineAt ∧ f.task = t

/-- `worker_api.block_robots` of a worker on its lease of an active job. -/
def Request.BlocksRemotely (r : Request) (s : Store) (t : Task) : Prop :=
  ∃ role taskId token code worker f, r.call = .remote role (.blockRobots taskId token code) ∧
    WorkerApi.identity role false s = .ok (worker, s) ∧
    WorkerApi.activeTask r.txn.now worker taskId token s = some f ∧ f.task = t

/-- `worker_api.retry` of a worker on its lease, with attempts left. -/
def Request.RetriesRemotely (r : Request) (s : Store) (t : Task) : Prop :=
  ∃ role taskId token errorClass errorCode availableAt metadata worker,
    r.call = .remote role (.retry taskId token errorClass errorCode availableAt metadata) ∧
    WorkerApi.identity role false s = .ok (worker, s) ∧
    WorkerApi.ownedTask worker taskId token s = some t ∧
    (metadata.downloadedBytes.sql? 0).isSome = true ∧ t.attemptCount < t.maxAttempts

/-- `worker_api.release` of a worker on its lease. -/
def Request.Releases (r : Request) (s : Store) (t : Task) : Prop :=
  ∃ role taskId token worker, r.call = .remote role (.release taskId token) ∧
    WorkerApi.identity role true s = .ok (worker, s) ∧
    WorkerApi.ownedTask worker taskId token s = some t

/-- `worker_api.close_live_session` without a reason, of a worker on its live
session, whose task `t` is parked or leased to the worker. -/
def Request.ClosesUnreasoned (r : Request) (s : Store) (t : Task) : Prop :=
  ∃ role id worker, r.call = .remote role (.closeLiveSession id none) ∧
    WorkerApi.identity role true s = .ok (worker, s) ∧ closing worker id s = some t

/-- The last transaction of `retry_failures` on this job. -/
def Request.Populates (r : Request) (jobId : Uuid) : Prop :=
  ∃ config rows, r.call = .populateRetries config jobId rows

/-- `worker_api.reserve_provider_attempt` of a worker on its lease of an active
job, within the caps, of an amount that reads as another one. -/
def Request.ReservesUnread (r : Request) (s : Store) (jobId : Uuid) : Prop :=
  ∃ role taskId token route reserved worker f,
    r.call = .remote role (.reserveProviderAttempt taskId token route reserved) ∧
    WorkerApi.identity role false s = .ok (worker, s) ∧
    WorkerApi.activeTask r.txn.now worker taskId token s = some f ∧
    s.attemptAllowed f.job.config taskId route = true ∧ f.task.jobId = jobId ∧
    ¬reserved.Survives

/-- The labels a request's actions may carry. -/
def Request.emits (r : Request) (s : Store) : Event → Prop
  | .ordinary => True
  | .blocked t false => Request.BlocksAtCore r s t
  | .blocked t true => Request.BlocksRemotely r s t
  | .uncounted t => Request.ClosesUnreasoned r s t
  | .requeued t => (Request.RetriesRemotely r s t ∨ Request.Releases r s t) ∧ Flagged s t.jobId
  | .revived jobId =>
      ∃ f, Active r.txn.now s f ∧ f.job.state.terminal = true ∧ f.task.jobId = jobId
  | .populated jobId => Request.Populates r jobId
  | .unread jobId => Request.ReservesUnread r s jobId

/-! ## Every transaction commits actions -/

/-- A current lease is the one its fence finds. -/
theorem Fenced.fencedTask_eq {s : Store} {f : FencedTask} (h : Fenced s f) :
    s.fencedTask f.task.id f.token = some f := by
  have hfind : s.tasks.find? (fun t => t.id = f.task.id && t.state = .leased &&
      t.leaseToken = some f.token) = some f.task := by
    refine Table.find?_eq_of_mem h.mem (by simp [h.leased, h.token]) fun t ht hp => ?_
    simp only [Bool.and_eq_true, decide_eq_true_eq] at hp
    exact task_eq_of_id ht h.mem hp.1.1
  have hjob : s.job? f.task.jobId = some f.job := Store.job?_eq_some.mpr ⟨h.job_mem, h.job_id⟩
  unfold Store.fencedTask
  rw [hfind]
  simp only [hjob, Option.map_some]

theorem remote_body_trace {x : Txn} {role : String} {call : RemoteCall} {s s' : Store} {b : Bool}
    (h : call.body x role s = .ok (b, s')) :
    Trace Action (Request.emits ⟨x, .remote role call⟩ s) s s' := by
  have hok : Request.emits ⟨x, .remote role call⟩ s .ordinary := trivial
  cases call with
  | register protocol capabilities =>
      obtain ⟨r, h, -⟩ := map_ok.mp h
      exact register_trace hok h
  | drain => exact drain_trace hok h
  | claim capabilities =>
      obtain ⟨r, h, -⟩ := map_ok.mp h
      exact claim_trace hok h
  | heartbeat taskId token => exact remote_heartbeat_trace hok h
  | reserveBrowserNavigation taskId token => exact remote_reserveBrowserNavigation_trace hok h
  | storeRobots originKey body => exact remote_storeRobots_trace hok h
  | blockRobots taskId token code =>
      refine remote_blockRobots_trace (fun worker f hworker hf => ?_) h
      exact ⟨role, taskId, token, code, worker, f, rfl, hworker, hf, rfl⟩
  | fail taskId token errorClass errorCode metadata => exact fail_trace hok h
  | retry taskId token errorClass errorCode availableAt metadata =>
      refine retry_trace hok (fun worker t hworker ht hcast hattempts hflag => ?_) h
      exact ⟨Or.inl ⟨role, taskId, token, errorClass, errorCode, availableAt, metadata, worker,
        rfl, hworker, ht, hcast, hattempts⟩, hflag⟩
  | release taskId token =>
      refine release_trace hok (fun worker t hworker ht hflag => ?_) h
      exact ⟨Or.inr ⟨role, taskId, token, worker, rfl, hworker, ht⟩, hflag⟩
  | complete taskId token artifact report =>
      exact complete_trace hok (fun f hf hend => ⟨f, hf, hend, rfl⟩) h
  | startLiveSession taskId token backend workerId ttlSeconds code =>
      obtain ⟨r, h, -⟩ := map_ok.mp h
      exact startLiveSession_trace hok h
  | waitForInput taskId token code => exact waitForInput_trace hok h
  | touchLiveSession id => exact touchLiveSession_trace hok h
  | closeLiveSession id reason =>
      refine closeLiveSession_trace hok (fun hnull worker t hworker ht => ?_) h
      subst hnull
      exact ⟨role, id, worker, rfl, hworker, ht⟩
  | resumeLiveSession id =>
      obtain ⟨r, h, -⟩ := map_ok.mp h
      rw [(remote_resumeLiveSession_ok h).2]
      exact Trace.refl
  | finishLiveSession id => exact finishLiveSession_trace hok h
  | reserveProviderAttempt taskId token route reserved =>
      obtain ⟨r, h, -⟩ := map_ok.mp h
      exact reserveProviderAttempt_trace hok
        (fun worker f hworker hf hroom hunread => ⟨role, taskId, token, route, reserved, worker, f,
          rfl, hworker, hf, hroom, rfl, hunread⟩) h
  | finishProviderAttempt attemptId token outcome actual estimated =>
      exact finishProviderAttempt_trace hok h

theorem accepted_ok {f : Store → Store} {s s' : Store} {b : Bool}
    (h : accepted f s = .ok (b, s')) : s' = f s := by
  simp only [accepted, bind_ok, exec_ok, pure_ok] at h
  obtain ⟨_, _, rfl, -, rfl⟩ := h
  rfl

theorem body_trace {url : UrlIdentity} {x : Txn} {call : Call} {s s' : Store} {b : Bool}
    (h : call.body url x s = .ok (b, s')) :
    Trace Action (Request.emits ⟨x, call⟩ s) s s' := by
  have hok : Request.emits ⟨x, call⟩ s .ordinary := trivial
  cases call with
  | submitJob config key =>
      obtain ⟨r, h, -⟩ := map_ok.mp h
      exact submitJob_trace hok h
  | populateRetries config jobId rows =>
      obtain ⟨r, h, -⟩ := map_ok.mp h
      exact populateRetries_trace hok ⟨config, rows, rfl⟩ h
  | requestCancel jobId => exact requestCancel_trace hok h
  | finalizeJobs =>
      obtain rfl := accepted_ok h
      exact finalizeJobs_trace hok ..
  | claimTask workerId capabilities =>
      obtain ⟨r, h, -⟩ := map_ok.mp h
      exact claimTask_trace hok h
  | heartbeat taskId token => exact heartbeat_trace hok h
  | reserveBrowserNavigation taskId token => exact reserveBrowserNavigation_trace hok h
  | completeTask taskId token result =>
      exact completeTask_trace hok (fun f hf hend => ⟨f, hf, hend, rfl⟩) h
  | retryTask taskId token decision availableAt metadata => exact retryTask_trace hok h
  | failTask taskId token decision metadata => exact failTask_trace hok h
  | blockRobots taskId token code =>
      refine blockRobots_trace hok (fun f hf hid htoken => ?_) h
      refine ⟨taskId, token, code, f, rfl, ?_, hf.uncancelled, hf.timely, rfl⟩
      rw [← hid, ← htoken]
      exact hf.fencedTask_eq
  | storeRobots originKey body =>
      obtain rfl := accepted_ok h
      exact Frames.trace hok ⟨rfl, rfl, rfl, rfl, rfl⟩
  | reapExpiredLeases =>
      obtain ⟨r, h, -⟩ := map_ok.mp h
      exact reapExpiredLeases_trace hok h
  | reserveAcquisitionAttempt taskId token route reservedCost =>
      obtain ⟨r, h, -⟩ := map_ok.mp h
      exact reserveAcquisitionAttempt_trace hok h
  | finishAcquisitionAttempt attemptId token outcome actualCost costEstimated =>
      exact finishAcquisitionAttempt_trace hok h
  | waitForInputLocal taskId token backend workerId ttlSeconds =>
      obtain ⟨r, h, -⟩ := map_ok.mp h
      exact waitForInputLocal_trace hok h
  | requestResume id =>
      obtain rfl := accepted_ok h
      exact Frames.trace hok ⟨rfl, rfl, rfl, rfl, rfl⟩
  | touchSession id =>
      obtain rfl := accepted_ok h
      exact Frames.trace hok ⟨rfl, rfl, rfl, rfl, rfl⟩
  | closeCompleted id =>
      obtain rfl := accepted_ok h
      exact Frames.trace hok ⟨rfl, rfl, rfl, rfl, rfl⟩
  | closeSession id reason workerId => exact closeSession_trace hok h
  | expireDue =>
      obtain rfl := accepted_ok h
      exact expireDue_trace hok ..
  | resumeLiveSession id workerId =>
      obtain ⟨r, h, -⟩ := map_ok.mp h
      exact resumeLiveSession_trace hok h
  | remote role call => exact remote_body_trace h
  | environment workers proxyLeases =>
      obtain rfl := accepted_ok h
      exact Frames.trace hok ⟨rfl, rfl, rfl, rfl, rfl⟩

/-- One request commits actions, labelled by what the request was. -/
theorem step_trace (url : UrlIdentity) (r : Request) (s : Store) :
    Trace Action (Request.emits r s) s (step url r s) := by
  rcases step_cases r s with hsame | ⟨b, hbody⟩
  · rw [hsame]
    exact Trace.refl
  · exact body_trace hbody

/-! ## Invariants along runs -/

/-- An invariant of all actions whose labels the requests of a run may emit
holds along the run. -/
theorem run_preserves {url : UrlIdentity} {P : Request → Store → Prop} {E : Event → Prop}
    {I : Store → Prop} (hok : ∀ r s e, P r s → I s → Request.emits r s e → E e)
    (hstep : ∀ s e s', E e → Action s e s' → I s → I s')
    {s : Store} {requests : List Request} (hP : StepsMeet (step url) P s requests) (hI : I s) :
    I (run url s requests) := by
  refine runFrom_invariant (fun r s hr hs => ?_) hP hI
  exact Trace.preserves hstep ((step_trace url r s).mono fun e => hok r s e hr hs) hs

/-- As `run_preserves`, for an invariant of every action. -/
theorem reachable_invariant {url : UrlIdentity} {I : Store → Prop}
    (hstep : ∀ s e s', Action s e s' → I s → I s') (hblank : ∀ s : Store, s.blank → I s)
    {s : Store} (h : Reachable url s) : I s := by
  obtain ⟨s₀, h₀, requests, rfl⟩ := h
  refine run_preserves (P := fun _ _ => True) (E := fun _ => True) ?_ ?_ ?_ (hblank s₀ h₀)
  · exact fun _ _ _ _ _ _ => trivial
  · exact fun s e s' _ => hstep s e s'
  · exact stepsMeet_of_forall fun _ _ _ => trivial

end Lifecycle

end CrawlTrove
