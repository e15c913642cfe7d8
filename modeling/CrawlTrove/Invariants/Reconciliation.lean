import CrawlTrove.Invariants.Frontier

/-!
# Cached counters and their reconciliation

The counters a job caches are those `reconcile_job` recomputes, as long as no
lease of an active job is blocked by the core and no worker closes a session
without a reason: `_terminalize` does not count a robots block, which
`worker_api.block_robots` does, and `worker_api.close_live_session` takes NULL
for a failure that it does not count.
-/

namespace CrawlTrove

open Relational Transaction

namespace Lifecycle

/-! ## The invariant -/

/-- Every cached column of the job equals what it caches. -/
structure Cached (jobId : Uuid) (s : Store) : Prop where
  wellFormed : WellFormed s
  grown : Grown jobId s
  terminal : Balanced jobId Job.terminalCount (inState TaskState.terminal) s
  succeeded : Balanced jobId Job.succeededCount (inState (· = .succeeded)) s
  failed : Balanced jobId Job.failedCount (inState TaskState.failed) s
  blocked : Balanced jobId Job.blockedCount (inState (· = .blockedRobots)) s
  bytes : Balanced jobId Job.reservedBytes Task.byteBudgetReserved s
  artifacts : Balanced jobId Job.reservedArtifactBytes Task.artifactBudgetReserved s
  downloaded : Charged jobId Job.downloadedBytes (fun a => a.actualCost.downloadedBytes.getD 0) s
  stored : Charged jobId Job.artifactBytes (fun a => a.actualCost.artifactBytes.getD 0) s

theorem Cached.preserved {jobId : Uuid} {s : Store} {e : Event} {s' : Store}
    (he : Counts jobId e) (ha : Action s e s') (h : Cached jobId s) : Cached jobId s' where
  wellFormed := h.wellFormed.preserved ha
  grown := h.grown.preserved he.1 ha h.wellFormed
  terminal := h.terminal.preserved (terminal_gauge (Counts jobId) jobId) he ha h.wellFormed
  succeeded := h.succeeded.preserved (succeeded_gauge (Counts jobId) jobId) he ha h.wellFormed
  failed := h.failed.preserved (failed_gauge jobId) he ha h.wellFormed
  blocked := h.blocked.preserved (blocked_gauge jobId) he ha h.wellFormed
  bytes := h.bytes.preserved (reservedBytes_gauge (Counts jobId) jobId) he ha h.wellFormed
  artifacts :=
    h.artifacts.preserved (reservedArtifactBytes_gauge (Counts jobId) jobId) he ha h.wellFormed
  downloaded := h.downloaded.preserved downloaded_charge ha h.wellFormed
  stored := h.stored.preserved artifacts_charge ha h.wellFormed

theorem Cached.of_blank {jobId : Uuid} {s : Store} (h : s.blank) : Cached jobId s where
  wellFormed := .of_blank h
  grown := .of_blank h
  terminal := .of_blank h
  succeeded := .of_blank h
  failed := .of_blank h
  blocked := .of_blank h
  bytes := .of_blank h
  artifacts := .of_blank h
  downloaded := .of_blank h
  stored := .of_blank h

/-! ## Reconciliation -/

/-- Recomputing the counters gives the counters. -/
theorem Cached.reconciled {jobId : Uuid} {s : Store} (h : Cached jobId s) {j : Job}
    (hj : j ∈ s.jobs) (hid : j.id = jobId) : reconciledJob s j = j := by
  subst hid
  obtain ⟨hn, -⟩ := h.grown j hj rfl
  have hcount (g : Job → ℤ) (P : TaskState → Bool) (hg : Balanced j.id g (inState P) s) :
      (s.tasks.count fun t => t.jobId = j.id && P t.state) = g j := by
    rw [count_inState]
    exact (hg j hj rfl).symm
  unfold reconciledJob
  simp only [hcount _ _ h.terminal, hcount _ _ h.failed, hn.count_eq, hn.nextSequence_eq]
  rw [show (s.tasks.count fun t => t.jobId = j.id && t.state = .succeeded) = j.succeededCount from
      hcount _ _ h.succeeded,
    show (s.tasks.count fun t => t.jobId = j.id && t.state = .blockedRobots) = j.blockedCount from
      hcount _ _ h.blocked]
  have hbytes : (s.tasks.total fun t => if decide (t.jobId = j.id) = true then
      t.byteBudgetReserved else 0) = j.reservedBytes := by
    simp only [decide_eq_true_eq]
    exact (h.bytes j hj rfl).symm
  have hartifacts : (s.tasks.total fun t => if decide (t.jobId = j.id) = true then
      t.artifactBudgetReserved else 0) = j.reservedArtifactBytes := by
    simp only [decide_eq_true_eq]
    exact (h.artifacts j hj rfl).symm
  have hdownloaded : (s.attempts.total fun a => if a.jobId = j.id then
      a.actualCost.downloadedBytes.getD 0 else 0) = j.downloadedBytes :=
    (h.downloaded j hj rfl).symm
  have hstored : (s.attempts.total fun a => if a.jobId = j.id then
      a.actualCost.artifactBytes.getD 0 else 0) = j.artifactBytes :=
    (h.stored j hj rfl).symm
  rw [hbytes, hartifacts, hdownloaded, hstored]

theorem Cached.reconcileJob_noop {jobId : Uuid} {s : Store} (h : Cached jobId s) :
    (commit (reconcileJob jobId) s).2 = s := by
  refine commit_snd (P := fun s' => s' = s) rfl fun b s' hb => ?_
  simp only [reconcileJob, bind_ok, read_ok] at hb
  obtain ⟨found, s₁, ⟨-, rfl⟩, hb⟩ := hb
  cases found with
  | none => exact (pure_ok.mp hb).2.symm
  | some job =>
      simp only [bind_ok, exec_ok, pure_ok] at hb
      obtain ⟨_, _, rfl, -, rfl⟩ := hb
      exact Store.updateJobs_eq_self fun j hj hid => h.reconciled hj (of_decide_eq_true hid)

/-- After any run in which `retry_failures` does not populate the job, the core
blocks none of its leases while the job is active and no worker closes the
session of one of its tasks without a reason, the cached counters of the job are
those `reconcile_job` recomputes, and it changes nothing. -/
theorem counters_exact (url : UrlIdentity) (jobId : Uuid) (s₀ : Store) (h₀ : s₀.blank)
    (requests : List Request)
    (hP : StepsMeet (step url) (fun r s => ¬Request.Populates r jobId ∧
      ∀ t, t.jobId = jobId → ¬Request.BlocksAtCore r s t ∧ ¬Request.ClosesUnreasoned r s t)
      s₀ requests) :
    let s := run url s₀ requests
    (∀ j ∈ s.jobs, j.id = jobId → reconciledJob s j = j) ∧
      (commit (reconcileJob jobId) s).2 = s := by
  intro s
  have hcached : Cached jobId s := by
    refine run_preserves (E := Counts jobId) (fun r s e hr _ he => ⟨?_, fun t ht => ?_⟩)
      (fun s e s' he ha hs => hs.preserved he ha) hP (Cached.of_blank h₀)
    · rintro rfl
      exact hr.1 he
    · constructor
      · rintro rfl
        exact (hr.2 t ht).1 he
      · rintro rfl
        exact (hr.2 t ht).2 he
  exact ⟨fun j hj hid => hcached.reconciled hj hid, hcached.reconcileJob_noop⟩

theorem counters_exact_crawl :
    (commit (reconcileJob 1) (run Sample.identity {} Sample.crawl)).2 =
      run Sample.identity {} Sample.crawl := by
  refine (counters_exact Sample.identity 1 {} (by simp [Store.blank]) Sample.crawl
    (stepsMeet_of_forall fun r hr s => ⟨?_, ?_⟩)).2
  · rintro ⟨config, rows, hcall⟩
    simp only [Sample.crawl, List.mem_cons, List.not_mem_nil, or_false] at hr
    rcases hr with rfl | rfl | rfl <;> cases hcall
  · rintro t -
    constructor
    · rintro ⟨taskId, token, code, f, hcall, -⟩
      simp only [Sample.crawl, List.mem_cons, List.not_mem_nil, or_false] at hr
      rcases hr with rfl | rfl | rfl <;> cases hcall
    · rintro ⟨role, id, worker, hcall, -⟩
      simp only [Sample.crawl, List.mem_cons, List.not_mem_nil, or_false] at hr
      rcases hr with rfl | rfl | rfl <;> cases hcall

/-- The seed is leased and blocked by the core: one task is blocked, and the
job counts none. -/
theorem counters_drift :
    let s := run Sample.identity {} [Sample.submit, Sample.claim, Sample.block]
    ∃ j ∈ s.jobs, j.blockedCount = 0 ∧ (reconciledJob s j).blockedCount = 1 ∧
      reconciledJob s j ≠ j := by
  decide

/-- A session is closed without a reason: its task has failed, and the job
counts no failure. -/
example :
    let s := run Sample.identity {} [Sample.enrol, Sample.submit, Sample.remoteClaim,
      ⟨{ now := seconds 2, uuid := fun n => 21 + n }, .remote "worker_edge"
        (.startLiveSession 2 11 "owned" "edge" none "human_input_required")⟩,
      ⟨{ now := seconds 3, uuid := fun n => 31 + n }, .remote "worker_edge"
        (.closeLiveSession 21 none)⟩]
    ∃ j ∈ s.jobs, j.terminalCount = 1 ∧ j.failedCount = 0 ∧
      (reconciledJob s j).failedCount = 1 := by
  decide

end Lifecycle

end CrawlTrove
