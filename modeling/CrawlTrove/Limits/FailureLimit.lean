import CrawlTrove.Limits.Queueing

/-!
# The failure limit

`_enforce_failure_limit` drains a job that has failed as often as it may. The
worker protocol and the two ways a session expires count failures without it,
and a task can be queued in a job that has been drained already. A run without
these leaves no job at its limit with work queued.
-/

namespace CrawlTrove

open Relational Transaction

open Lifecycle Protocol

/-- A worker's call neither fails the last task its job may lose while others
are queued, nor queues work in a job at its limit. -/
def RemoteCall.Restrained (x : Txn) (role : String) (s : Store) : RemoteCall → Prop
  | .fail taskId token _ _ metadata =>
      (metadata.downloadedBytes.sql? 0).isSome = true →
        ∀ task ∈ Limits.heldBy role false taskId token s, ¬ Limits.LeavesWork task s
  | .retry taskId token _ _ _ metadata =>
      (metadata.downloadedBytes.sql? 0).isSome = true →
        ∀ task ∈ Limits.heldBy role false taskId token s,
          if task.maxAttempts ≤ task.attemptCount then ¬ Limits.LeavesWork task s
          else ¬ Limits.AtLimit task.jobId s
  | .release taskId token =>
      ∀ task ∈ Limits.heldBy role true taskId token s, ¬ Limits.AtLimit task.jobId s
  | .complete taskId token artifact report =>
      ∀ worker f, Limits.activeFor x role taskId token s worker f →
        Limits.TakesReport s worker f artifact report →
          Limits.WorkerFinds f report.discoveredUrls s → ¬ Limits.AtLimit f.task.jobId s
  | .startLiveSession taskId token backend workerId ttlSeconds _ =>
      validBackend backend = true → ttlSeconds.all validTtl = true →
        ∀ worker f, Limits.activeFor x role taskId token s worker f → workerId = worker.id →
          (∀ l ∈ s.sessions, l.taskId ≠ taskId) → ¬ Limits.AtLimit f.task.jobId s
  | .waitForInput taskId token _ =>
      ∀ worker f, Limits.activeFor x role taskId token s worker f →
        (∀ l ∈ s.sessions, l.taskId ≠ taskId) → ¬ Limits.AtLimit f.task.jobId s
  | .closeLiveSession id reason =>
      reason.expires = true → ∀ worker, Limits.workerOf role true s = some worker →
        ∀ l task, l.id = id → l.workerId = some worker.id →
          Limits.EndsTask s l (some worker.id) task → ¬ Limits.LeavesWork task s
  | _ => True

/-- As `RemoteCall.Restrained`, for every call. -/
def Call.Restrained (url : UrlIdentity) (x : Txn) (s : Store) : Call → Prop
  | .populateRetries _ jobId rows =>
      Limits.AtLimit jobId s → ∀ original ∈ rows.tail,
        Protocol.known jobId (url.sha256 (url.normalizeUrl original)) s = true
  | .completeTask taskId token result =>
      ∀ f, s.fencedTask taskId token = some f → Protocol.Current x.now f →
        Limits.Fits f result → (∀ r ∈ s.results, r.taskId ≠ taskId) →
          Limits.CoreFinds url f result.discoveredUrls s → ¬ Limits.AtLimit f.task.jobId s
  | .retryTask taskId token _ _ _ =>
      ∀ f, s.fencedTask taskId token = some f → Limits.RequeuesReaped x f →
        ¬ Limits.AtLimit f.task.jobId s
  | .reapExpiredLeases => Limits.ReapsWithin x s (s.expiredLeases x)
  | .waitForInputLocal taskId token backend workerId ttlSeconds =>
      validTtl ttlSeconds = true → validBackend backend = true → workerId ≠ "" →
        ∀ f, s.fencedTask taskId token = some f → Limits.StartsHere s x.now f workerId →
          ¬ Limits.AtLimit f.task.jobId s
  | .closeSession id reason workerId =>
      reason.expires = true → ∀ l task, l.id = id → Limits.EndsTask s l workerId task →
        ¬ Limits.LeavesWork task s
  | .expireDue => Limits.ExpiresWithin x s
  | .remote role call => call.Restrained x role s
  | _ => True

namespace Limits

/-- The request counts no failure past the check, and queues nothing behind it. -/
def Restrained (url : UrlIdentity) (r : Request) (s : Store) : Prop :=
  r.call.Restrained url r.txn s

section Runs

variable {url : UrlIdentity} {s s' : Store}

theorem touchLiveSession_shrinks (x : Txn) (role : String) (id : Uuid) :
    Steps (Shrinks Overrun) (WorkerApi.touchLiveSession x role id) := by
  unfold WorkerApi.touchLiveSession
  refine (identity_steps ..).bind fun worker => Steps.read_bind fun _ => ?_
  exact exec_bind_steps (fun s => shrinks_of_tables rfl rfl) (Steps.pure _)

theorem finishLiveSession_shrinks (role : String) (id : Uuid) :
    Steps (Shrinks Overrun) (WorkerApi.finishLiveSession role id) := by
  unfold WorkerApi.finishLiveSession
  refine (identity_steps ..).bind fun worker => Steps.read_bind fun _ => Steps.read_bind fun _ => ?_
  exact exec_bind_steps (fun s => shrinks_of_tables rfl rfl) (Steps.pure _)

theorem remote_shrinks {x : Txn} {role : String} {call : RemoteCall} {b : Bool}
    (hr : call.Restrained x role s) (h : call.body x role s = .ok (b, s')) :
    Shrinks Overrun s s' := by
  by_cases hmoves : call.moves = false
  · exact (remote_winds hmoves h).shrinks
  · cases call with
    | fail taskId token errorClass errorCode metadata => exact fail_shrinks hr h
    | retry taskId token errorClass errorCode availableAt metadata => exact retry_shrinks hr h
    | release taskId token => exact release_shrinks hr h
    | complete taskId token artifact report => exact complete_shrinks hr h
    | startLiveSession taskId token backend workerId ttlSeconds code =>
        obtain ⟨session, hstart, -⟩ := map_ok.mp h
        exact startLiveSession_shrinks hr hstart
    | waitForInput taskId token code => exact waitForInput_shrinks hr h
    | touchLiveSession id => exact touchLiveSession_shrinks _ _ _ h
    | closeLiveSession id reason => exact closeLiveSession_shrinks hr h
    | finishLiveSession id => exact finishLiveSession_shrinks _ _ h
    | _ => exact absurd rfl hmoves

/-- A restrained request leaves no job at its limit with work queued. -/
theorem step_within {r : Request} (hr : Restrained url r s) (hs : ∀ jobId, ¬ Overrun jobId s) :
    ∀ jobId, ¬ Overrun jobId (step url r s) := by
  have hshrinks : Shrinks Overrun s (step url r s) → ∀ jobId, ¬ Overrun jobId (step url r s) :=
    fun h jobId ho => hs jobId (h jobId ho)
  rcases step_cases r s with hsame | ⟨b, h⟩
  · rw [hsame]
    exact hs
  · obtain ⟨x, call⟩ := r
    by_cases hmoves : call.moves = false
    · exact hshrinks (step_winds hmoves s).shrinks
    · cases call with
      | submitJob config key =>
          obtain ⟨_, hsubmit, -⟩ := map_ok.mp h
          exact hshrinks (submitJob_shrinks _ _ _ hsubmit)
      | populateRetries config jobId rows =>
          obtain ⟨_, hpopulate, -⟩ := map_ok.mp h
          exact hshrinks (populateRetries_shrinks hr hpopulate)
      | requestCancel jobId => exact hshrinks (requestCancel_shrinks _ _ h)
      | completeTask taskId token result => exact hshrinks (completeTask_shrinks hr h)
      | retryTask taskId token decision availableAt metadata =>
          exact hshrinks (retryTask_shrinks hr h)
      | reapExpiredLeases =>
          obtain ⟨_, hreap, -⟩ := map_ok.mp h
          exact reapExpiredLeases_sound hr hs hreap
      | waitForInputLocal taskId token backend workerId ttlSeconds =>
          obtain ⟨_, hstart, -⟩ := map_ok.mp h
          exact hshrinks (waitForInputLocal_shrinks hr hstart)
      | requestResume id => exact hshrinks (shrinks_of_tables rfl rfl)
      | touchSession id => exact hshrinks (shrinks_of_tables rfl rfl)
      | closeCompleted id => exact hshrinks (shrinks_of_tables rfl rfl)
      | closeSession id reason workerId => exact hshrinks (closeSession_shrinks hr h)
      | expireDue => exact fun jobId => not_overrun_expireDue hr
      | remote role call => exact hshrinks (remote_shrinks hr h)
      | _ => exact absurd rfl hmoves

/-- A run of restrained requests keeps the failure limit: wherever it gets, a
job that has failed as often as it may has nothing queued. -/
theorem failure_limit_kept (url : UrlIdentity) (s₀ : Store) (h₀ : s₀.blank)
    (requests : List Request) (h : StepsMeet (step url) (Restrained url) s₀ requests)
    (before after : List Request) (hsplit : requests = before ++ after) :
    ∀ j ∈ (run url s₀ before).jobs, j.config.maxFailures ≤ j.failedCount →
      ∀ t ∈ (run url s₀ before).tasks, t.jobId = j.id → t.state.queued = false := by
  have hblank : ∀ jobId, ¬ Overrun jobId s₀ := by
    rintro jobId ⟨⟨j, hj, -⟩, -⟩
    rw [h₀.1] at hj
    exact Table.mem_empty.mp hj
  rw [hsplit, stepsMeet_append] at h
  have hrun : ∀ jobId, ¬ Overrun jobId (run url s₀ before) :=
    runFrom_invariant (I := fun s => ∀ jobId, ¬ Overrun jobId s)
      (fun _ _ hr hs => step_within hr hs) h.1 hblank
  intro j hj hlimit t ht hjob
  by_contra hqueued
  refine hrun j.id ⟨⟨j, hj, rfl, hlimit⟩, Table.any_eq_true.mpr ⟨t, ht, ?_⟩⟩
  simpa [hjob] using hqueued

end Runs

/-- The operations that may count a failure. -/
def raisesFailures : Call → Bool
  | .completeTask .. | .retryTask .. | .failTask .. | .reapExpiredLeases | .closeSession ..
  | .expireDue => true
  | .remote _ (.fail ..) | .remote _ (.retry ..) | .remote _ (.closeLiveSession ..) => true
  | _ => false

/-! ## Samples -/

/-- A crawl that may fail once. -/
def submitOne : Request :=
  ⟨Sample.submit.txn, .submitJob
    { Sample.config with maxFailures := 1, maxFailures_ok := by decide } none⟩

/-- Its seed leads to the pages 22 and 23. -/
def branch : Request :=
  ⟨{ now := seconds 2, uuid := fun n => 21 + n }, .completeTask 2 11
    { finalUrl := "https://example.com", markdown := "A page."
      discoveredUrls := ["https://example.com/a", "https://example.com/b"] }⟩

/-- The first of them is leased to the local worker and fails. -/
def failsHere : List Request :=
  [submitOne, Sample.claim, branch,
    ⟨{ now := seconds 12, uuid := fun n => 31 + n }, .claimTask "local" ["http"]⟩,
    ⟨{ now := seconds 13, uuid := fun n => 41 + n }, .failTask 22 31
      ⟨false, "http", "http_404"⟩ {}⟩]

/-- The failure drains the second. -/
theorem failure_limit_kept_branch :
    (∃ j ∈ (run Sample.identity {} failsHere).jobs, j.config.maxFailures ≤ j.failedCount) ∧
      ∀ j ∈ (run Sample.identity {} failsHere).jobs, j.config.maxFailures ≤ j.failedCount →
        ∀ t ∈ (run Sample.identity {} failsHere).tasks, t.jobId = j.id →
          t.state.queued = false := by
  have hbelow : ∀ jobId, ¬ AtLimit jobId (run Sample.identity {} [submitOne, Sample.claim]) := by
    have hrows : ∀ j ∈ (run Sample.identity {} [submitOne, Sample.claim]).jobs,
        j.failedCount < j.config.maxFailures := by decide
    rintro jobId ⟨j, hj, -, hlimit⟩
    exact absurd hlimit (not_le.mpr (hrows j hj))
  refine ⟨by decide, ?_⟩
  refine failure_limit_kept Sample.identity {} (by simp [Store.blank]) failsHere ?_ failsHere []
    (List.append_nil _).symm
  exact ⟨trivial, trivial, fun f _ _ _ _ _ => hbelow f.task.jobId, trivial, trivial, trivial⟩

/-- The first is leased to a remote worker. -/
def leasedAway : List Request :=
  [Sample.enrol, submitOne, Sample.claim, branch,
    ⟨{ now := seconds 12, uuid := fun n => 31 + n },
      .remote "worker_edge" (.claim ["http"])⟩]

/-- It fails. -/
def failsAway : Request :=
  ⟨{ now := seconds 13, uuid := fun n => 41 + n },
    .remote "worker_edge" (.fail 22 31 "http" "http_404" {})⟩

/-- The failure leaves the second queued. -/
theorem failure_limit_missed :
    ¬ ∀ (requests : List Request) (r : Request), raisesFailures r.call = true →
      reply Sample.identity r (run Sample.identity {} requests) = .ok true →
        ∀ j ∈ (run Sample.identity {} (requests ++ [r])).jobs,
          j.config.maxFailures ≤ j.failedCount →
            ∀ t ∈ (run Sample.identity {} (requests ++ [r])).tasks, t.jobId = j.id →
              t.state.queued = false := by
  intro h
  have hleft : ∃ j ∈ (run Sample.identity {} (leasedAway ++ [failsAway])).jobs,
      j.config.maxFailures ≤ j.failedCount ∧
        ∃ t ∈ (run Sample.identity {} (leasedAway ++ [failsAway])).tasks, t.jobId = j.id ∧
          t.state.queued = true := by decide
  obtain ⟨j, hj, hlimit, t, ht, hjob, hqueued⟩ := hleft
  have hdrained := h leasedAway failsAway rfl (by decide) j hj hlimit t ht hjob
  rw [hqueued] at hdrained
  cases hdrained

end Limits

end CrawlTrove
