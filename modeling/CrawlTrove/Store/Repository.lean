import CrawlTrove.Store.Jobs

/-!
# Claiming and finishing tasks

The leasing half of `app/crawl/repository.py`: `claim_task`, `heartbeat`,
`reserve_browser_navigation`, `complete_task`, `retry_task`, `fail_task`,
`block_robots`, `store_robots` and `reap_expired_leases`.
-/

namespace CrawlTrove

open Relational Transaction

def leaseSeconds : ℤ := 120
def htmlResponseCap : ℤ := 10 * 1024 * 1024
def documentResponseCap : ℤ := 50 * 1024 * 1024
def imageResponseCap : ℤ := 25 * 1024 * 1024
def inlineArtifactCap : ℤ := 30 * 1024 * 1024

def documentSuffixes : List String := [".pdf", ".epub"]
def imageSuffixes : List String := [".avif", ".gif", ".jpeg", ".jpg", ".png", ".webp"]

/-- `_response_cap`, by the suffix of the lower-cased path. No character
outside ASCII lower-cases to a letter of these suffixes. -/
def responseCap (url : String) : ℤ :=
  let path := (url.toList.map Char.toLower).takeWhile (· ≠ '?')
  let endsWith (suffixes : List String) := suffixes.any fun suffix => suffix.toList.isSuffixOf path
  if endsWith documentSuffixes then documentResponseCap
  else if endsWith imageSuffixes then imageResponseCap
  else htmlResponseCap

/-- What a worker receives with a lease. -/
structure ClaimedTask where
  id : Uuid
  jobId : Uuid
  url : String
  normalizedUrl : String
  originKey : String
  depth : ℤ
  attempt : ℤ
  leaseToken : Uuid
  deadlineAt : Time
  config : CrawlConfig
  byteAllowance : ℤ
  artifactAllowance : ℤ
  requiredCapabilities : List String
deriving DecidableEq

/-! ## Claiming -/

/-- The rows the claim query may lock. -/
def Store.claimable (x : Txn) (capabilities : List String) (s : Store) (t : Task) : Bool :=
  (t.state = .pending || t.state = .retryWait) &&
  decide (t.availableAt ≤ x.now) &&
  t.requiredCapabilities.all capabilities.contains &&
  !x.lockedTask t.id &&
  match s.job? t.jobId with
  | none => false
  | some j => j.cancelRequestedAt.isNone && decide (x.now < j.deadlineAt)

/-- `ORDER BY priority, available_at, discovery_seq`, strictly. -/
def Task.before (a b : Task) : Bool :=
  decide (a.priority < b.priority) ||
  (decide (a.priority = b.priority) &&
    (decide (a.availableAt < b.availableAt) ||
      (decide (a.availableAt = b.availableAt) && decide (a.discoverySeq < b.discoverySeq))))

/-- The first row in claim order. -/
def firstInOrder : List Task → Option Task
  | [] => none
  | t :: ts =>
      match firstInOrder ts with
      | none => some t
      | some u => if u.before t then some u else some t

/-- The larger of two optional times, `NULL` being ignored. -/
def greatest (a b : Option Time) : Option Time :=
  match a, b with
  | none, b => b
  | a, none => a
  | some a, some b => some (max a b)

/-- Until when the origin refuses claims, if it does. -/
def Origin.blockedUntil (o : Origin) : Option Time :=
  if o.circuitState = .open' then greatest o.cooldownUntil o.circuitOpenUntil
  else o.cooldownUntil

/-- Put a task off without leasing it. -/
def deferTask (taskId : Uuid) (until_ : Time) (s : Store) : Store :=
  s.updateTasks (fun t => t.id = taskId) fun t => { t with availableAt := until_ }

def halfOpen (originKey : String) (s : Store) : Store :=
  s.updateOrigins (fun o => o.originKey = originKey) fun o => { o with circuitState := .halfOpen }

/-- Reserve a lease's allowances on the job. -/
def reserveBudget (jobId : Uuid) (bytes artifacts : ℤ) (s : Store) : Store :=
  s.updateJobs (fun j => j.id = jobId) fun j =>
    { j with
      reservedBytes := j.reservedBytes + bytes
      reservedArtifactBytes := j.reservedArtifactBytes + artifacts }

/-- `pending` jobs run from their first lease on. -/
def startJob (now : Time) (jobId : Uuid) (s : Store) : Store :=
  s.updateJobs (fun j => j.id = jobId) fun j =>
    { j with
      state := if j.state = .pending then .running else j.state
      startedAt := some (j.startedAt.getD now) }

/-- The lease columns of a claimed or resumed task. -/
def Task.lease (now : Time) (owner : String) (token : Uuid) (bytes artifacts : ℤ) (t : Task) :
    Task :=
  { t with
    state := .leased
    leaseOwner := some owner
    leaseToken := some token
    leaseExpiresAt := some (now + seconds leaseSeconds)
    byteBudgetReserved := bytes
    artifactBudgetReserved := artifacts }

/-- The worker attempt a claim opens. -/
def workerAttempt (id : Uuid) (task : Task) (number : ℤ) (workerId : String) (bytes artifacts : ℤ) :
    Attempt :=
  { id
    jobId := task.jobId
    taskId := task.id
    attemptNumber := number
    workerId := some workerId
    reservedCost := { downloadedBytes := some bytes, artifactBytes := some artifacts } }

def originLease (now : Time) (task : Task) (token : Uuid) : OriginLease :=
  { originKey := task.originKey
    taskId := task.id
    leaseToken := token
    expiresAt := now + seconds leaseSeconds }

/-- Space out the requests to an origin. -/
def paceOrigin (now : Time) (originKey : String) (delayMs : ℤ) (s : Store) : Store :=
  s.updateOrigins (fun o => o.originKey = originKey) fun o =>
    { o with nextRequestAt := now + milliseconds delayMs }

def Store.originLeased (s : Store) (originKey : String) : Bool :=
  s.originLeases.any fun l => l.originKey = originKey

/-- The lease of a claim, once nothing speaks against it. -/
def grantLease (x : Txn) (workerId : String) (task : Task) (job : Job) (bytes artifacts : ℤ) :
    Tx ClaimedTask := do
  let token := x.uuid 0
  let number := task.attemptCount + 1
  exec (reserveBudget task.jobId bytes artifacts)
  exec (startJob x.now task.jobId)
  exec <| Store.updateTasks (fun t => t.id = task.id) fun t =>
    { t.lease x.now workerId token bytes artifacts with
      attemptCount := t.attemptCount + 1
      startedAt := some (t.startedAt.getD x.now) }
  attempt .integrityViolation <| Store.insertAttempt <|
    workerAttempt (x.uuid 1) task number workerId bytes artifacts
  attempt .integrityViolation <| Store.insertOriginLease <| originLease x.now task token
  exec (paceOrigin x.now task.originKey job.config.minDelayMs)
  return {
    id := task.id, jobId := task.jobId, url := task.originalUrl
    normalizedUrl := task.normalizedUrl, originKey := task.originKey, depth := task.depth
    attempt := number, leaseToken := token, deadlineAt := job.deadlineAt
    config := job.config, byteAllowance := bytes, artifactAllowance := artifacts
    requiredCapabilities := task.requiredCapabilities }

def Job.remainingBytes (j : Job) : ℤ := j.maxBytes - j.downloadedBytes - j.reservedBytes

def Job.remainingArtifacts (j : Job) : ℤ :=
  j.maxArtifactBytes - j.artifactBytes - j.reservedArtifactBytes

/-- `claim_task`, once the origin's circuit admits requests. -/
def claimPaced (x : Txn) (workerId : String) (task : Task) (job : Job) (origin : Origin) :
    Tx (Option ClaimedTask) := do
  if x.now < origin.nextRequestAt then
    exec (deferTask task.id origin.nextRequestAt)
    return none
  else if ← read fun s => s.originLeased task.originKey then
    return none
  else
    let bytes := min job.remainingBytes (responseCap task.normalizedUrl)
    let artifacts := min job.remainingArtifacts inlineArtifactCap
    if bytes ≤ 0 ∨ artifacts ≤ 0 then
      exec (drainUnleased x.now task.jobId
        (if bytes ≤ 0 then "byte_budget_exhausted" else "artifact_budget_exhausted"))
      return none
    else
      some <$> grantLease x workerId task job bytes artifacts

/-- `claim_task`, once the task row is locked. -/
def claimLocked (x : Txn) (workerId : String) (task : Task) (job : Job) :
    Tx (Option ClaimedTask) := do
  exec (Store.ensureOrigin x.now task.originKey)
  match ← read fun s => s.origin? task.originKey with
  | none => return none
  | some origin =>
      match origin.blockedUntil.filter (x.now < ·) with
      | some blockedUntil => do
          exec (deferTask task.id blockedUntil)
          return none
      | none => do
          exec fun s => if origin.circuitState = .open' then halfOpen task.originKey s else s
          claimPaced x workerId task job origin

/-- `claim_task`. -/
def claimTask (x : Txn) (workerId : String) (capabilities : List String) :
    Tx (Option ClaimedTask) := do
  match ← read fun s => firstInOrder (s.tasks.select (s.claimable x capabilities)) with
  | none => return none
  | some task =>
      match ← read fun s => s.job? task.jobId with
      | none => return none
      | some job =>
          if job.cancelRequestedAt.isSome ∨ job.deadlineAt ≤ x.now then return none
          else claimLocked x workerId task job

/-! ## Keeping a lease -/

/-- Move the expiry of a task's lease. -/
def extendTask (now : Time) (p : Task → Bool) (s : Store) : Store :=
  s.updateTasks p fun t => { t with leaseExpiresAt := some (now + seconds leaseSeconds) }

/-- Move the expiry of the permit held with it. -/
def extendPermit (now : Time) (taskId token : Uuid) (s : Store) : Store :=
  s.updateOriginLeases (fun l => l.taskId = taskId && l.leaseToken = token) fun l =>
    { l with expiresAt := now + seconds leaseSeconds }

/-- `heartbeat`. -/
def heartbeat (x : Txn) (taskId token : Uuid) : Tx Bool := do
  match ← activeLease x taskId token with
  | none => return false
  | some _ => do
      exec (extendTask x.now fun t => t.id = taskId && t.leaseToken = some token)
      exec (extendPermit x.now taskId token)
      read fun s => s.originLeases.any fun l => l.taskId = taskId && l.leaseToken = token

/-- The job's row, while it has browser pages left. -/
def Job.navigable (jobId : Uuid) (j : Job) : Bool :=
  j.id = jobId && decide (j.browserPageCount < j.config.maxBrowserPages)

def countNavigation (jobId : Uuid) (s : Store) : Store :=
  s.updateJobs (Job.navigable jobId) fun j => { j with browserPageCount := j.browserPageCount + 1 }

/-- `reserve_browser_navigation`. -/
def reserveBrowserNavigation (x : Txn) (taskId token : Uuid) : Tx Bool := do
  match ← activeLease x taskId token with
  | none => return false
  | some f => do
      let reserved ← read fun s => s.jobs.any (Job.navigable f.task.jobId)
      exec (countNavigation f.task.jobId)
      return reserved

/-! ## Completing a task -/

/-- A worker's report of one page. -/
structure TaskResult where
  finalUrl : String
  markdown : String
  metadata : Metadata := {}
  discoveredUrls : List String := []
deriving DecidableEq

/-- The downloaded and screenshot bytes a report claims; malformed values
count as nothing reported. -/
def reportedBytes (metadata : Metadata) : ℤ × ℤ :=
  match metadata.downloadedBytes.py?, metadata.screenshotBytes.py? with
  | some downloaded, some screenshot => (max 0 downloaded, max 0 screenshot)
  | _, _ => (0, 0)

/-- A task discovered on a page. The insert trigger pins the capability of an
explicit managed provider, as `_required_capabilities` does. -/
def discoveredTask (url : UrlIdentity) (now : Time) (f : FencedTask) (id : Uuid)
    (original : String) (sequence : ℤ) : Task :=
  let normalized := url.normalizeUrl original
  { id
    jobId := f.task.jobId
    originalUrl := original
    normalizedUrl := normalized
    urlHash := url.sha256 normalized
    originKey := url.originKey normalized
    depth := f.task.depth + 1
    discoverySeq := sequence
    priority := f.task.depth + 1
    discoveredFromTaskId := some f.task.id
    state := .pending
    availableAt := now
    maxAttempts := f.task.maxAttempts
    requiredCapabilities := f.job.config.requiredCapabilities }

/-- A link is in scope: it has an identity and lies on the parent's origin. -/
def inScope (url : UrlIdentity) (f : FencedTask) (original : String) : Bool :=
  let normalized := url.normalizeUrl original
  normalized ≠ "" && url.originKey normalized = f.task.originKey

/-- The loop of `_insert_discovered`; `accepted` children are in already. -/
def insertLinks (url : UrlIdentity) (x : Txn) (f : FencedTask) (remaining : ℤ) :
    List String → ℕ → ℤ → Tx ℤ
  | [], _, accepted => return accepted
  | original :: urls, draw, accepted => do
      if remaining ≤ accepted then
        return accepted
      else if !inScope url f original then
        insertLinks url x f remaining urls draw accepted
      else do
        let inserted ← insertTaskOnce <| discoveredTask url x.now f (x.uuid draw) original
          (f.job.nextDiscoverySeq + accepted)
        insertLinks url x f remaining urls (draw + 1) (if inserted then accepted + 1 else accepted)

/-- `_insert_discovered`. -/
def insertDiscovered (url : UrlIdentity) (x : Txn) (f : FencedTask) (urls : List String) :
    Tx PUnit := do
  if f.job.config.maxDepth < f.task.depth + 1 then
    return ⟨⟩
  else
    let remaining := f.job.maxPages - f.job.discoveredCount
    if remaining ≤ 0 then
      return ⟨⟩
    else do
      let accepted ← insertLinks url x f remaining urls 1 0
      if accepted ≠ 0 then
        exec <| Store.updateJobs (fun j => j.id = f.task.jobId) fun j =>
          { j with
            discoveredCount := j.discoveredCount + accepted
            nextDiscoverySeq := f.job.nextDiscoverySeq + accepted }

/-- The origin forgets its failures after a success. -/
def resetOrigin (originKey : String) (s : Store) : Store :=
  s.updateOrigins (fun o => o.originKey = originKey) fun o =>
    { o with
      consecutiveFailures := 0
      circuitState := .closed
      circuitOpenUntil := none
      cooldownUntil := none }

/-- The rejection of a report that exceeds its allowances. -/
def rejectOverBudget (x : Txn) (f : FencedTask) (metadata : Metadata) (reason : String)
    (s : Store) : Store :=
  let downloaded := actualBytes f.task metadata
  let s := terminalize x.now f .permanentFailed (some "budget") (some reason) s
  let s := chargeDownload f.task downloaded s
  let s := finishAttempt x.now f.task "failed" metadata downloaded 0 s
  drainUnleased x.now f.task.jobId reason s

/-- The rows an accepted report changes besides its result and its links. -/
def settleCompleted (x : Txn) (f : FencedTask) (metadata : Metadata)
    (downloaded artifacts : ℤ) (s : Store) : Store :=
  let s := s.updateTasks (fun t => t.id = f.task.id && t.leaseToken = some f.token) fun t =>
    { t.unlease with state := .succeeded, finishedAt := some x.now }
  let s := releaseLease f s
  let s := resetOrigin f.task.originKey s
  let s := s.updateJobs (fun j => j.id = f.task.jobId) fun j =>
    { j with
      downloadedBytes := j.downloadedBytes + downloaded
      artifactBytes := j.artifactBytes + artifacts
      terminalCount := j.terminalCount + 1
      succeededCount := j.succeededCount + 1 }
  finishAttempt x.now f.task "succeeded" metadata downloaded artifacts s

/-- `complete_task`. -/
def completeTask (url : UrlIdentity) (x : Txn) (taskId token : Uuid) (result : TaskResult) :
    Tx Bool := do
  match ← activeLease x taskId token with
  | none => return false
  | some f => do
      let downloaded := actualBytes f.task result.metadata
      let (reported, screenshot) := reportedBytes result.metadata
      let artifacts := (result.markdown.utf8ByteSize : ℤ) + screenshot
      if f.task.byteBudgetReserved < reported ∨ f.task.artifactBudgetReserved < artifacts then
        exec (rejectOverBudget x f result.metadata
          (if f.task.byteBudgetReserved < reported then "byte_budget_exhausted"
            else "artifact_budget_exhausted"))
        return false
      else if ← read fun s => s.results.any fun r => r.taskId = taskId then
        return false
      else do
        attempt .integrityViolation <| Store.insertResult
          { id := x.uuid 0, taskId, finalUrl := result.finalUrl
            markdown := some result.markdown, markdownRef := none
            downloadedBytes := downloaded, artifactBytes := artifacts }
        insertDiscovered url x f result.discoveredUrls
        exec (settleCompleted x f result.metadata downloaded artifacts)
        return true

/-! ## Failing a task -/

/-- The classification of a failure (`FailureDecision`). -/
structure FailureDecision where
  retry : Bool
  errorClass : String
  errorCode : String
deriving DecidableEq

/-- Transport and HTTP failures count against the origin. -/
def failureWeight (errorClass : String) : ℤ :=
  if errorClass = "transport" ∨ errorClass = "http" then 1 else 0

/-- The failure streak and the circuit of an origin after a retryable failure. -/
def Origin.recordFailure (now : Time) (errorClass : String) (availableAt : Time) (o : Origin) :
    Origin :=
  let failures := o.consecutiveFailures + failureWeight errorClass
  { o with
    nextRequestAt := max o.nextRequestAt availableAt
    consecutiveFailures := failures
    circuitState := if 5 ≤ failures then .open' else o.circuitState
    circuitOpenUntil := if 5 ≤ failures then some (now + seconds 300) else o.circuitOpenUntil }

def penalizeOrigin (now : Time) (originKey errorClass : String) (availableAt : Time) (s : Store) :
    Store :=
  s.updateOrigins (fun o => o.originKey = originKey)
    (fun o =>
      { o.recordFailure now errorClass availableAt with
        cooldownUntil := greatest o.cooldownUntil (some availableAt) })

/-- A failure that ends the task. -/
def failPermanently (x : Txn) (f : FencedTask) (decision : FailureDecision) (metadata : Metadata)
    (s : Store) : Store :=
  let downloaded := actualBytes f.task metadata
  let s := terminalize x.now f .permanentFailed (some decision.errorClass)
    (some decision.errorCode) s
  let s := chargeDownload f.task downloaded s
  finishAttempt x.now f.task "failed" metadata downloaded 0 s

/-- The task row goes back to the queue. -/
def requeueTask (f : FencedTask) (availableAt : Time) (errorClass errorCode : String)
    (s : Store) : Store :=
  s.updateTasks (fun t => t.id = f.task.id && t.leaseToken = some f.token) fun t =>
    { t.unlease with
      state := .retryWait
      availableAt
      errorClass := some errorClass
      errorCode := some errorCode }

/-- A failure after which the task waits for another attempt. -/
def requeue (x : Txn) (f : FencedTask) (decision : FailureDecision) (availableAt : Time)
    (metadata : Metadata) (s : Store) : Store :=
  let downloaded := actualBytes f.task metadata
  let s := requeueTask f availableAt decision.errorClass decision.errorCode s
  let s := releaseLease f s
  let s := chargeDownload f.task downloaded s
  let s := penalizeOrigin x.now f.task.originKey decision.errorClass availableAt s
  finishAttempt x.now f.task "retry" metadata downloaded 0 s

/-- `retry_task`. -/
def retryTask (x : Txn) (taskId token : Uuid) (decision : FailureDecision) (availableAt : Time)
    (metadata : Metadata) : Tx Bool := do
  match ← activeLease x taskId token with
  | none => return false
  | some f => do
      if f.task.maxAttempts ≤ f.task.attemptCount then
        exec (failPermanently x f decision metadata)
        return true
      else
        exec (requeue x f decision availableAt metadata)
        return true

/-- `fail_task`. -/
def failTask (x : Txn) (taskId token : Uuid) (decision : FailureDecision) (metadata : Metadata) :
    Tx Bool := do
  match ← activeLease x taskId token with
  | none => return false
  | some f => do
      exec (failPermanently x f decision metadata)
      return true

/-- `block_robots`. -/
def blockRobots (x : Txn) (taskId token : Uuid) (code : String) : Tx Bool := do
  match ← activeLease x taskId token with
  | none => return false
  | some f => do
      exec (terminalize x.now f .blockedRobots (some "policy") (some code))
      return true

/-- `store_robots`. -/
def storeRobots (x : Txn) (originKey body : String) (s : Store) : Store :=
  s.updateOrigins (fun o => o.originKey = originKey) fun o =>
    { o with robotsBody := some body, robotsExpiresAt := some (x.now + seconds (24 * 3600)) }

/-! ## Reaping -/

/-- The rows `reap_expired_leases` locks. -/
def Store.expiredLeases (x : Txn) (s : Store) : List (Uuid × Option Uuid) :=
  (s.tasks.select fun t => t.state = .leased && t.leaseExpiresAt.any (· ≤ x.now) &&
    !x.lockedTask t.id).map fun t => (t.id, t.leaseToken)

/-- A reaped lease with attempts left. -/
def requeueReaped (x : Txn) (f : FencedTask) (s : Store) : Store :=
  let s := requeueTask f x.now "transport" "lease_expired" s
  let s := releaseLease f s
  finishAttempt x.now f.task "retry" { errorCode := some "lease_expired" } 0 0 s

/-- One iteration of `reap_expired_leases`. -/
def reapLease (x : Txn) (lease : Uuid × Option Uuid) : Tx Bool := do
  match ← read fun s => lease.2.bind (s.fencedTask lease.1) with
  | none => return false
  | some f => do
      if ← rejectInactiveLease x f then
        return true
      else if f.task.maxAttempts ≤ f.task.attemptCount then
        exec (terminalize x.now f .permanentFailed (some "transport") (some "lease_expired"))
        return true
      else
        exec (requeueReaped x f)
        return true

/-- The leases one pass reaped. -/
def reapLeases (x : Txn) : List (Uuid × Option Uuid) → ℕ → Tx ℕ
  | [], reaped => return reaped
  | lease :: leases, reaped => do
      let done ← reapLease x lease
      reapLeases x leases (if done then reaped + 1 else reaped)

/-- `reap_expired_leases`. -/
def reapExpiredLeases (x : Txn) : Tx ℕ := do
  reconcileAbandoned x none
  let expired ← read (Store.expiredLeases x)
  reapLeases x expired 0

end CrawlTrove
