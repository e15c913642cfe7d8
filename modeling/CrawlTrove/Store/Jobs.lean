import CrawlTrove.Store.Lease

/-!
# Jobs: submission, cancellation, reconciliation and finalization

`submit_job`, `request_cancel`, `reconcile_job`, `finalize_jobs`,
`list_pages` and the two transactions of `retry_failures`. URL normalization
and hashing enter as an arbitrary `UrlIdentity`.
-/

namespace CrawlTrove

open Relational Transaction

/-- `normalize.normalize_url`, `normalize.origin_key` and the SHA-256 digest
in lower-case hexadecimal. Nothing in the store depends on more than these
being functions. -/
structure UrlIdentity where
  normalizeUrl : String → String
  originKey : String → String
  sha256 : String → String

/-- The seed row of a submission. -/
def seedTask (url : UrlIdentity) (now : Time) (config : CrawlConfig) (jobId taskId : Uuid) :
    Task :=
  let normalized := url.normalizeUrl config.url
  { id := taskId
    jobId
    originalUrl := config.url
    normalizedUrl := normalized
    urlHash := url.sha256 normalized
    originKey := url.originKey normalized
    depth := 0
    discoverySeq := 0
    state := .pending
    availableAt := now
    maxAttempts := config.acquisition.maxAttempts
    requiredCapabilities := config.requiredCapabilities }

/-- The job row of a submission. -/
def submittedJob (now : Time) (config : CrawlConfig) (jobId : Uuid)
    (idempotencyKey : Option String) : Job :=
  { id := jobId
    state := .pending
    config
    maxPages := config.limit
    maxBytes := config.maxBytes
    maxArtifactBytes := config.maxArtifactBytes
    discoveredCount := 1
    deadlineAt := now + seconds config.timeoutSeconds
    idempotencyKey }

def insertUsageRows (jobId : Uuid) :
    List (Provider × Meter × {limit : ℚ // 0 ≤ limit}) → Tx PUnit
  | [] => pure ⟨⟩
  | (provider, meter, limit) :: rows => do
      attempt .integrityViolation <| Store.insertUsage
        { jobId, provider, meter
          limitValue := limit.1, reservedValue := 0, consumedValue := 0
          limit_nonneg := limit.2, reserved_nonneg := le_refl 0, consumed_nonneg := le_refl 0
          within_limit := by simpa using limit.2 }
      insertUsageRows jobId rows

/-- The job a submission with this key must return. A blank key is no key. -/
def Store.keyed? (s : Store) (idempotencyKey : Option String) : Option Job :=
  match idempotencyKey with
  | none => none
  | some key => if key = "" then none else s.jobs.find? fun j => j.idempotencyKey = some key

/-- `submit_job`: one job and its seed task, or the existing keyed job. The
transaction draws the job's and the seed's uuid. -/
def submitJob (url : UrlIdentity) (x : Txn) (config : CrawlConfig)
    (idempotencyKey : Option String) : Tx Uuid := do
  match ← read fun s => s.keyed? idempotencyKey with
  | some existing => return existing.id
  | none => do
      let jobId := x.uuid 0
      attempt .integrityViolation (Store.insertJob (submittedJob x.now config jobId idempotencyKey))
      insertUsageRows jobId config.providerUsageRows
      let seed := seedTask url x.now config jobId (x.uuid 1)
      attempt .integrityViolation (Store.insertTask seed)
      exec (Store.ensureOrigin x.now seed.originKey)
      return jobId

/-- The cancelling `UPDATE` of queued tasks. -/
def cancelQueued (now : Time) (jobId : Uuid) (s : Store) : Store :=
  s.updateTasks (fun t => t.jobId = jobId && t.state.queued) fun t =>
    { t with state := .cancelled, finishedAt := some now }

/-- Sessions of the tasks a cancel collected. -/
def cancelSessions (cancelled : List Uuid) (s : Store) : Store :=
  s.updateSessions (fun l => cancelled.contains l.taskId && l.state.live) fun l =>
    { l with state := .cancelled }

/-- The job row of `request_cancel`. -/
def cancelJob (now : Time) (jobId : Uuid) (cancelled : ℤ) (s : Store) : Store :=
  let active := s.hasLeased jobId
  s.updateJobs (fun j => j.id = jobId) fun j =>
    { j with
      cancelRequestedAt := some (j.cancelRequestedAt.getD now)
      terminalCount := j.terminalCount + cancelled
      state := if active then j.state else .cancelled
      finishedAt := if active then j.finishedAt else some now }

/-- `request_cancel`. -/
def requestCancel (x : Txn) (jobId : Uuid) : Tx Bool := do
  match ← read fun s => s.job? jobId with
  | none => return false
  | some job =>
      if job.state.terminal then return true
      else do
        let cancelled ← read fun s =>
          (s.tasks.select fun t => t.jobId = jobId && t.state.queued).map Task.id
        exec (cancelQueued x.now jobId)
        exec (cancelSessions cancelled)
        exec (cancelJob x.now jobId cancelled.length)
        reconcileAbandoned x none
        return true

/-! ## Reconciliation -/

/-- `COALESCE(max(discovery_seq) + 1, 1)`. -/
def nextSequence (s : Store) (jobId : Uuid) : ℤ :=
  match (s.tasks.select fun t => t.jobId = jobId).map Task.discoverySeq with
  | [] => 1
  | seq :: seqs => seqs.foldl max seq + 1

/-- The counters `reconcile_job` recomputes from task and attempt rows. -/
def reconciledJob (s : Store) (j : Job) : Job :=
  let mine (t : Task) : Bool := t.jobId = j.id
  { j with
    discoveredCount := s.tasks.count mine
    terminalCount := s.tasks.count fun t => mine t && t.state.terminal
    succeededCount := s.tasks.count fun t => mine t && t.state = .succeeded
    failedCount := s.tasks.count fun t => mine t && t.state.failed
    blockedCount := s.tasks.count fun t => mine t && t.state = .blockedRobots
    reservedBytes := s.tasks.total fun t => if mine t then t.byteBudgetReserved else 0
    reservedArtifactBytes :=
      s.tasks.total fun t => if mine t then t.artifactBudgetReserved else 0
    nextDiscoverySeq := nextSequence s j.id
    downloadedBytes := s.attempts.total fun a =>
      if a.jobId = j.id then a.actualCost.downloadedBytes.getD 0 else 0
    artifactBytes := s.attempts.total fun a =>
      if a.jobId = j.id then a.actualCost.artifactBytes.getD 0 else 0 }

/-- `reconcile_job`: recompute the cached counters of one job. -/
def reconcileJob (jobId : Uuid) : Tx Bool := do
  match ← read fun s => s.job? jobId with
  | none => return false
  | some _ => do
      exec fun s => s.updateJobs (fun j => j.id = jobId) (reconciledJob s)
      return true

/-! ## Finalization -/

/-- The verdict of `finalize_jobs` on a drained job. -/
def finalState (cancelRequested expired : Bool) (succeeded blocked failed : ℤ) : JobState :=
  if cancelRequested then .cancelled
  else if expired then .timedOut
  else if succeeded ≠ 0 ∨ (blocked ≠ 0 ∧ failed = 0) then
    if succeeded ≠ 0 ∧ failed ≠ 0 then .partially else .completed
  else .failed

/-- Convert the queued work of an expired job into terminal tasks. -/
def expireQueued (now : Time) (jobId : Uuid) (s : Store) : Store :=
  let cancelled := s.tasks.count fun t => t.jobId = jobId && t.state.queued
  let s := cancelQueued now jobId s
  if cancelled ≠ 0 then
    s.updateJobs (fun j => j.id = jobId) fun j =>
      { j with terminalCount := j.terminalCount + cancelled }
  else s

/-- Give a drained job its final state. -/
def closeJob (now : Time) (job : Job) (expired : Bool) (s : Store) : Store :=
  let count (p : TaskState → Bool) := s.tasks.count fun t => t.jobId = job.id && p t.state
  let state := finalState job.cancelRequestedAt.isSome expired (count (· = .succeeded))
    (count (· = .blockedRobots)) (count TaskState.failed)
  s.updateJobs (fun j => j.id = job.id) fun j =>
    { j with
      state
      finishedAt := some now
      terminalReason := if state = .timedOut then some "deadline" else j.terminalReason }

/-- One iteration of `finalize_jobs`, on the job row as it was read. -/
def finalizeJob (now : Time) (job : Job) (s : Store) : Store :=
  let expired := decide (job.deadlineAt ≤ now)
  let s := if expired then expireQueued now job.id s else s
  if s.hasNonterminal job.id then s else closeJob now job expired s

/-- `finalize_jobs`: the jobs it reads are those no other transaction holds. -/
def finalizeJobs (x : Txn) (s : Store) : Store :=
  (s.jobs.select fun j => !j.state.terminal && !x.lockedJob j.id).foldl
    (fun s job => finalizeJob x.now job s) s

/-! ## Paging -/

/-- Insertion by `discovery_seq`, for `ORDER BY t.discovery_seq`. -/
def insertBySeq (t : Task) : List Task → List Task
  | [] => [t]
  | u :: us => if t.discoverySeq ≤ u.discoverySeq then t :: u :: us else u :: insertBySeq t us

def sortBySeq : List Task → List Task
  | [] => []
  | t :: ts => insertBySeq t (sortBySeq ts)

/-- `list_pages`: each task of the job after the cursor with its result. -/
def listPages (s : Store) (jobId : Uuid) (after : Option ℤ) (limit : ℤ) :
    Option (List (Task × Option CrawlResult)) :=
  match s.job? jobId with
  | none => none
  | some _ =>
      let rows := sortBySeq <| s.tasks.select fun t =>
        t.jobId = jobId && decide (after.getD (-1) < t.discoverySeq)
      some <| (rows.take (max 1 (min limit 100)).toNat).map fun t =>
        (t, s.results.find? fun r => r.taskId = t.id)

/-! ## Retrying failures -/

/-- The rows `retry_failures` may select. -/
def Store.retryable (s : Store) (jobId : Uuid) (ids : List Uuid) : List Task :=
  (sortBySeq <| s.tasks.select fun t => t.jobId = jobId && t.state.failed &&
    (t.errorClass = some "transport" || t.errorClass = some "http" ||
      t.errorClass = some "extraction") &&
    (ids.isEmpty || ids.contains t.id)).take 100

inductive RetryRejected
  | notFound | notRetryable | nothingSelected
deriving DecidableEq, Repr

private theorem retryLimit_ok (config : CrawlConfig) {n : ℕ} (h : n ≠ 0) :
    1 ≤ min config.limit (n : ℤ) ∧ min config.limit (n : ℤ) ≤ 100 := by
  have := config.limit_ok
  omega

/-- The reading transaction of `retry_failures`: the selected URLs and the
configuration of the new job. -/
def retrySelection (s : Store) (jobId : Uuid) (taskIds : List Uuid) :
    Except RetryRejected (List String × CrawlConfig) :=
  match s.job? jobId with
  | none => .error .notFound
  | some source =>
      let ids := taskIds.dedup
      let rows := s.retryable jobId ids
      if ids ≠ [] ∧ rows.length ≠ ids.length then .error .notRetryable
      else if h : rows = [] then .error .nothingSelected
      else
        .ok (rows.map Task.originalUrl,
          { source.config with
            url := (rows.head h).originalUrl
            limit := min source.config.limit rows.length
            limit_ok := retryLimit_ok source.config (by simpa using h) })

/-- A further seed of a retry job. -/
def retrySeed (url : UrlIdentity) (now : Time) (config : CrawlConfig) (jobId taskId : Uuid)
    (original : String) (sequence : ℤ) : Task :=
  { seedTask url now { config with url := original } jobId taskId with
    discoverySeq := sequence }

/-- `INSERT ... ON CONFLICT (job_id, url_hash) DO NOTHING RETURNING id`: a
clash of uuids still raises. -/
def insertTaskOnce (t : Task) : Tx Bool := do
  if ← read fun s => s.tasks.any fun u => u.jobId = t.jobId && u.urlHash = t.urlHash then
    return false
  else do
    attempt .integrityViolation (Store.insertTask t)
    return true

def insertRetries (url : UrlIdentity) (x : Txn) (config : CrawlConfig) (jobId : Uuid) :
    List String → ℕ → ℤ → Tx ℤ
  | [], _, sequence => return sequence
  | original :: rows, draw, sequence => do
      exec (Store.ensureOrigin x.now (url.originKey (url.normalizeUrl original)))
      let inserted ← insertTaskOnce
        (retrySeed url x.now config jobId (x.uuid draw) original sequence)
      insertRetries url x config jobId rows (draw + 1) (if inserted then sequence + 1 else sequence)

/-- The last transaction of `retry_failures`: the remaining rows become
tasks of the job `submit_job` created, whose counters it then sets. -/
def populateRetries (url : UrlIdentity) (x : Txn) (config : CrawlConfig) (jobId : Uuid)
    (rows : List String) : Tx Uuid := do
  let sequence ← insertRetries url x config jobId rows.tail 0 1
  exec <| Store.updateJobs (fun j => j.id = jobId) fun j =>
    { j with discoveredCount := sequence, nextDiscoverySeq := sequence }
  return jobId

end CrawlTrove
