import CrawlTrove.Store.Acquisition
import CrawlTrove.Store.Sessions

/-!
# The remote worker protocol

The `worker_api` functions enrolled workers may call
(`app/db/migrations/0005_remote_workers.sql` with the replacements of 0007,
0010 and 0011). Every function identifies the calling database role first.
-/

namespace CrawlTrove

open Relational Transaction Numerals

/-! ## Reported native values -/

/-- The reported meters are meters of the route. -/
def NativeValues.keysWithin (v : NativeValues) (r : Route) : Bool :=
  !v.unknownKey && Meter.all.all fun m => (v.value m).isNone || r.meters.contains m

/-- Every meter of the route is reported, not negative and at most what was
reserved. -/
def NativeValues.within (v : NativeValues) (r : Route) (reserved : Meter → Numeral) : Bool :=
  r.meters.all fun m =>
    match v.value m with
    | some (some n) => decide (0 ≤ n.value) && decide (n.value ≤ (reserved m).value)
    | _ => false

namespace WorkerApi

/-! ## Identity and fences -/

/-- `_identity`. -/
def identity (role : String) (allowDraining : Bool) : Tx Worker := do
  match ← read fun s => s.workers.find? fun w => w.dbRole = role && w.protocolVersion = 1 &&
      (w.state = .active || (allowDraining && w.state = .draining)) with
  | none => raise (.insufficientPrivilege "worker identity is not active and protocol-compatible")
  | some worker => return worker

/-- The task is leased to this worker under this token. -/
def ownedTask (worker : Worker) (taskId token : Uuid) (s : Store) : Option Task :=
  s.tasks.find? fun t => t.id = taskId && t.state = .leased && t.leaseToken = some token &&
    t.leaseOwner = some worker.id

/-- As `ownedTask`, joined with its job, which is neither cancelled nor expired. -/
def activeTask (now : Time) (worker : Worker) (taskId token : Uuid) (s : Store) :
    Option FencedTask :=
  match ownedTask worker taskId token s with
  | none => none
  | some task =>
      match s.job? task.jobId with
      | none => none
      | some job =>
          if job.cancelRequestedAt.isNone && decide (now < job.deadlineAt) then
            some ⟨task, job, token⟩
          else none

/-! ## Claiming -/

/-- The fixed per-lease caps of the SQL functions. -/
def byteCap : ℤ := 10485760
def artifactCap : ℤ := 31457280

/-- The budget, lease and attempt writes of `claim`, in its order. -/
def grantLease (x : Txn) (worker : Worker) (task : Task) (job : Job) (bytes artifacts : ℤ) :
    Tx ClaimedTask := do
  let token := x.uuid 0
  exec (reserveBudget job.id bytes artifacts)
  exec (startJob x.now job.id)
  exec <| Store.updateTasks (fun t => t.id = task.id) fun t =>
    { t.lease x.now worker.id token bytes artifacts with attemptCount := t.attemptCount + 1 }
  attempt .integrityViolation <| Store.insertOriginLease <| originLease x.now task token
  exec (paceOrigin x.now task.originKey job.config.minDelayMs)
  attempt .integrityViolation <| Store.insertAttempt <|
    workerAttempt (x.uuid 1) task (task.attemptCount + 1) worker.id bytes artifacts
  return {
    id := task.id, jobId := task.jobId, url := task.originalUrl
    normalizedUrl := task.normalizedUrl, originKey := task.originKey, depth := task.depth
    attempt := task.attemptCount + 1, leaseToken := token, deadlineAt := job.deadlineAt
    config := job.config, byteAllowance := bytes, artifactAllowance := artifacts
    requiredCapabilities := task.requiredCapabilities }

/-- `claim`, once the origin's circuit admits requests. -/
def claimPaced (x : Txn) (worker : Worker) (task : Task) (job : Job) (origin : Origin) :
    Tx (Option ClaimedTask) := do
  if x.now < origin.nextRequestAt ∨ (origin.cooldownUntil.any (x.now < ·)) then
    return none
  else if ← read fun s => s.originLeased task.originKey then
    return none
  else
    let bytes := min job.remainingBytes byteCap
    let artifacts := min job.remainingArtifacts artifactCap
    if bytes ≤ 0 ∨ artifacts ≤ 0 then
      return none
    else
      some <$> grantLease x worker task job bytes artifacts

/-- `claim`, once the task, the job and the origin are locked. The statement
that turns an open circuit half-open compares `origin_key`, which names a
column of the origin and an output column of the function: it raises. -/
def claimLocked (x : Txn) (worker : Worker) (task : Task) (job : Job) (origin : Origin) :
    Tx (Option ClaimedTask) := do
  let until_ := greatest origin.cooldownUntil origin.circuitOpenUntil
  match (if origin.circuitState = .open' then until_.filter (x.now < ·) else none) with
  | some blockedUntil => do
      exec (deferTask task.id blockedUntil)
      return none
  | none =>
      if origin.circuitState = .open' then
        raise (.ambiguousColumn "origin_key")
      else
        claimPaced x worker task job origin

/-- `claim`. -/
def claim (x : Txn) (role : String) (capabilities : List String) : Tx (Option ClaimedTask) := do
  let worker ← identity role false
  if !capabilities.all worker.capabilities.contains then
    raise (.insufficientPrivilege "capability denied")
  else
    match ← read fun s => firstInOrder (s.tasks.select (s.claimable x capabilities)) with
    | none => return none
    | some task =>
        match ← read fun s => s.job? task.jobId with
        | none => return none
        | some job =>
            match ← read fun s => s.origin? task.originKey with
            | none => return none
            | some origin => claimLocked x worker task job origin

/-! ## Keeping a lease -/

/-- `heartbeat`. -/
def heartbeat (x : Txn) (role : String) (taskId token : Uuid) : Tx Bool := do
  let worker ← identity role false
  match ← read (activeTask x.now worker taskId token) with
  | none => return false
  | some _ => do
      exec (extendTask x.now fun t => t.id = taskId)
      exec (extendPermit x.now taskId token)
      read fun s => s.originLeases.any fun l => l.taskId = taskId && l.leaseToken = token

/-- `reserve_browser_navigation`. -/
def reserveBrowserNavigation (x : Txn) (role : String) (taskId token : Uuid) : Tx Bool := do
  let worker ← identity role false
  match ← read (activeTask x.now worker taskId token) with
  | none => return false
  | some f => do
      let reserved ← read fun s => s.jobs.any (Job.navigable f.task.jobId)
      exec (countNavigation f.task.jobId)
      return reserved

/-- `store_robots`: only for an origin this worker holds a lease on. -/
def storeRobots (x : Txn) (role originKey body : String) : Tx Bool := do
  let worker ← identity role false
  let held ← read fun s => s.tasks.any fun t =>
    t.originKey = originKey && t.state = .leased && t.leaseOwner = some worker.id
  if held then
    let found ← read fun s => (s.origin? originKey).isSome
    exec (CrawlTrove.storeRobots x originKey body)
    return found
  else
    return false

/-! ## Ending a lease -/

/-- The row a settled task becomes: `task` fixes the new columns. -/
def settleRow (taskId : Uuid) (set : Task → Task)
    (hset : ∀ t, Keyed.key (set t) = Keyed.key t) (s : Store) : Store :=
  s.updateTasks (fun t => t.id = taskId) (fun t => set t.unlease) fun _ => hset _

/-- Free the origin and let the job row absorb the settlement. -/
def settleRows (task : Task) (token : Uuid) (count : Job → Job)
    (hcount : ∀ j, Keyed.key (count j) = Keyed.key j) (s : Store) : Store :=
  (s.deleteOriginLeases fun l => l.taskId = task.id && l.leaseToken = token).updateJobs
    (fun j => j.id = task.jobId)
    (fun j => count
      { j with
        reservedBytes := max 0 (j.reservedBytes - task.byteBudgetReserved)
        reservedArtifactBytes := max 0 (j.reservedArtifactBytes - task.artifactBudgetReserved) })
    fun _ => hcount _

/-- Close the worker attempt of the current lease. -/
def settleAttempt (now : Time) (task : Task) (outcome : String) (errorCode : Option String)
    (cost : Cost) (s : Store) : Store :=
  s.updateAttempts (fun a => a.taskId = task.id && a.attemptNumber = task.attemptCount) fun a =>
    { a with
      finishedAt := some now
      outcome := some outcome
      errorCode
      actualCost := cost }

/-- `block_robots`. -/
def blockRobots (x : Txn) (role : String) (taskId token : Uuid) (code : String) : Tx Bool := do
  let worker ← identity role false
  match ← read (activeTask x.now worker taskId token) with
  | none => return false
  | some f => do
      exec <| settleRow f.task.id (fun t =>
        { t with
          state := .blockedRobots, errorClass := some "policy", errorCode := some code
          finishedAt := some x.now }) fun _ => rfl
      exec <| settleRows f.task token (fun j =>
        { j with terminalCount := j.terminalCount + 1, blockedCount := j.blockedCount + 1 })
        fun _ => rfl
      exec (settleAttempt x.now f.task "blocked_robots" (some code) {})
      return true

/-- What a report charges: `LEAST(reserved, GREATEST(0, reported))`. -/
def usedBytes (task : Task) (reported : ℤ) : ℤ := min task.byteBudgetReserved (max 0 reported)

/-- Read an integer entry of the metadata, raising on a failed cast. -/
def castInt (default : ℤ) (v : ReportedInt) : Tx ℤ :=
  match v.sql? default with
  | none => raise .invalidText
  | some n => return n

/-- The permanent failure both `fail` and a last `retry` record. -/
def failRows (x : Txn) (task : Task) (token : Uuid) (errorClass errorCode : String) (used : ℤ)
    (s : Store) : Store :=
  let s := settleRow task.id (fun t =>
    { t with
      state := .permanentFailed, errorClass := some errorClass, errorCode := some errorCode
      finishedAt := some x.now }) (fun _ => rfl) s
  let s := settleRows task token (fun j =>
    { j with
      downloadedBytes := j.downloadedBytes + used
      terminalCount := j.terminalCount + 1
      failedCount := j.failedCount + 1 }) (fun _ => rfl) s
  settleAttempt x.now task "failed" (some errorCode) { downloadedBytes := some used } s

/-- `fail`. -/
def fail (x : Txn) (role : String) (taskId token : Uuid) (errorClass errorCode : String)
    (metadata : Metadata) : Tx Bool := do
  let worker ← identity role false
  match ← read (ownedTask worker taskId token) with
  | none => return false
  | some task => do
      let reported ← castInt 0 metadata.downloadedBytes
      exec (failRows x task token errorClass errorCode (usedBytes task reported))
      return true

/-- The bytes of a report, on the job row. -/
def charge (used : ℤ) (j : Job) : Job := { j with downloadedBytes := j.downloadedBytes + used }

/-- The rows `retry` writes while attempts remain. -/
def requeueRows (x : Txn) (task : Task) (token : Uuid) (errorClass errorCode : String)
    (availableAt : Time) (used : ℤ) (s : Store) : Store :=
  let s := settleRow task.id (fun t =>
    { t with
      state := .retryWait, availableAt, errorClass := some errorClass
      errorCode := some errorCode }) (fun _ => rfl) s
  let s := settleRows task token (charge used) (fun _ => rfl) s
  let s := s.updateOrigins (fun o => o.originKey = task.originKey)
    (Origin.recordFailure x.now errorClass availableAt)
  settleAttempt x.now task "retry" (some errorCode) { downloadedBytes := some used } s

/-- `retry`. -/
def retry (x : Txn) (role : String) (taskId token : Uuid) (errorClass errorCode : String)
    (availableAt : Time) (metadata : Metadata) : Tx Bool := do
  let worker ← identity role false
  match ← read (ownedTask worker taskId token) with
  | none => return false
  | some task => do
      let reported ← castInt 0 metadata.downloadedBytes
      let used := usedBytes task reported
      if task.maxAttempts ≤ task.attemptCount then
        exec (failRows x task token errorClass errorCode used)
        return true
      else
        exec (requeueRows x task token errorClass errorCode availableAt used)
        return true

/-- The rows `release` writes. -/
def releaseRows (x : Txn) (task : Task) (token : Uuid) (s : Store) : Store :=
  let s := settleRow task.id (fun t =>
    { t with
      state := .retryWait, availableAt := x.now, errorClass := some "transport"
      errorCode := some "worker_released" }) (fun _ => rfl) s
  let s := settleRows task token (fun j => j) (fun _ => rfl) s
  settleAttempt x.now task "released" (some "worker_released") {} s

/-- `release`. A draining worker may still release. -/
def release (x : Txn) (role : String) (taskId token : Uuid) : Tx Bool := do
  let worker ← identity role true
  match ← read (ownedTask worker taskId token) with
  | none => return false
  | some task => do
      exec (releaseRows x task token)
      return true

/-! ## Completing a task -/

/-- The artifact reference of a remote completion. -/
structure ArtifactRef where
  uri : Option String
  sha256 : Option String
  mediaType : Option String
  size : ReportedInt
deriving DecidableEq

/-- One element of `discovered_urls`. -/
structure RemoteLink where
  url : Option String
  sha256 : Option String
  originKey : Option String
deriving DecidableEq

/-- The metadata of a remote completion. -/
structure Report where
  downloadedBytes : ReportedInt := .absent
  finalUrl : Option String := none
  discoveredUrls : List RemoteLink := []
deriving DecidableEq

/-- `text LIKE pattern`, with `%`, `_` and backslash escapes. -/
def sqlLike : List Char → List Char → Bool
  | [], text => text.isEmpty
  | '%' :: pattern, [] => sqlLike pattern []
  | '%' :: pattern, c :: text => sqlLike pattern (c :: text) || sqlLike ('%' :: pattern) text
  | '_' :: _, [] => false
  | '_' :: pattern, _ :: text => sqlLike pattern text
  | '\\' :: p :: pattern, c :: text => p = c && sqlLike pattern text
  | p :: pattern, c :: text => p = c && sqlLike pattern text
  | _ :: _, [] => false
termination_by pattern text => pattern.length + text.length

/-- `^[0-9a-f]{64}$`. -/
def lowerHexDigest (text : String) : Bool :=
  text.toList.length = 64 && text.toList.all fun c =>
    (decide ('0' ≤ c) && decide (c ≤ '9')) || (decide ('a' ≤ c) && decide (c ≤ 'f'))

/-- `^[0-9a-fA-F]{64}$`. -/
def hexDigest (text : String) : Bool :=
  text.toList.length = 64 && text.toList.all fun c =>
    (decide ('0' ≤ c) && decide (c ≤ '9')) || (decide ('a' ≤ c) && decide (c ≤ 'f')) ||
      (decide ('A' ≤ c) && decide (c ≤ 'F'))

/-- The reference lies in the worker's bucket and below its prefix. -/
def ownsUri (worker : Worker) (uri : String) : Bool :=
  sqlLike (("s3://" ++ worker.artifactBucket ++ "/" ++ worker.artifactPrefix ++ "%").toList)
    uri.toList

/-- The artifact and the reported bytes fit the lease. A missing digest passes
here and fails the insert. -/
def acceptsReport (worker : Worker) (task : Task) (artifact : ArtifactRef) (size reported : ℤ) :
    Bool :=
  (match artifact.uri with | none => false | some uri => ownsUri worker uri) &&
  (match artifact.sha256 with | none => true | some sha => hexDigest sha) &&
  decide (artifact.mediaType = some "text/markdown") &&
  decide (0 ≤ size) && decide (size ≤ task.artifactBudgetReserved) &&
  decide (reported ≤ task.byteBudgetReserved)

/-- The insert trigger of migration 0010: children of a managed job keep the
provider's route. -/
def managedProviderCapability (config : CrawlConfig) (capabilities : List String) : List String :=
  match config.acquisition.provider with
  | .firecrawl => ["firecrawl_scrape"]
  | .brightdata => ["brightdata_unlocker"]
  | .browserbase => ["browserbase_session"]
  | .auto | .local' => capabilities

/-- A child row of `complete`; the worker reports its URL, digest and origin. -/
def discoveredTask (now : Time) (f : FencedTask) (id : Uuid) (reported digest : String)
    (sequence : ℤ) : Task :=
  { id
    jobId := f.task.jobId
    originalUrl := reported
    normalizedUrl := reported
    urlHash := digest
    originKey := f.task.originKey
    depth := f.task.depth + 1
    discoverySeq := sequence
    discoveredFromTaskId := some f.task.id
    state := .pending
    availableAt := now
    maxAttempts := f.task.maxAttempts
    requiredCapabilities := managedProviderCapability f.job.config
      (if f.job.config.engine = .browser then ["browser"] else ["http"]) }

/-- A reported link is in scope: not too deep, on the parent's origin, with a
well-formed digest. -/
def inScope (f : FencedTask) (link : RemoteLink) : Bool :=
  decide (f.task.depth + 1 ≤ f.job.config.maxDepth) &&
  decide (link.originKey = some f.task.originKey) &&
  match link.sha256 with
  | none => false
  | some digest => lowerHexDigest digest

/-- The loop over `discovered_urls`; the job row is read back after each
insert. -/
def insertLinks (x : Txn) (f : FencedTask) : List RemoteLink → ℕ → Tx PUnit
  | [], _ => return ⟨⟩
  | link :: links, draw => do
      match ← read fun s => s.job? f.task.jobId with
      | none => return ⟨⟩
      | some job =>
          if inScope f link && decide (job.discoveredCount < job.maxPages) then
            match link.url, link.sha256 with
            | some reported, some digest => do
                let inserted ← insertTaskOnce <|
                  discoveredTask x.now f (x.uuid draw) reported digest job.nextDiscoverySeq
                if inserted then
                  exec <| Store.updateJobs (fun j => j.id = f.task.jobId) fun j =>
                    { j with
                      discoveredCount := j.discoveredCount + 1
                      nextDiscoverySeq := j.nextDiscoverySeq + 1 }
                insertLinks x f links (draw + 1)
            | _, _ => raise .invalidText
          else
            insertLinks x f links (draw + 1)

/-- The success of a task, on the job row. -/
def countSucceeded (used size : ℤ) (j : Job) : Job :=
  { j with
    downloadedBytes := j.downloadedBytes + used
    artifactBytes := j.artifactBytes + size
    terminalCount := j.terminalCount + 1
    succeededCount := j.succeededCount + 1 }

/-- The rows an accepted report changes before its links. -/
def completeRows (x : Txn) (f : FencedTask) (used size : ℤ) (s : Store) : Store :=
  let s := settleRow f.task.id (fun t =>
    { t with state := .succeeded, finishedAt := some x.now }) (fun _ => rfl) s
  let s := settleRows f.task f.token (countSucceeded used size) (fun _ => rfl) s
  let s := s.updateAttempts
    (fun a => a.taskId = f.task.id && a.attemptNumber = f.task.attemptCount) fun a =>
    { a with
      finishedAt := some x.now
      actualCost := { downloadedBytes := some used, artifactBytes := some size }
      outcome := some "succeeded" }
  resetOrigin f.task.originKey s

/-- `complete`. -/
def complete (x : Txn) (role : String) (taskId token : Uuid) (artifact : ArtifactRef)
    (report : Report) : Tx Bool := do
  let worker ← identity role false
  match ← read (activeTask x.now worker taskId token) with
  | none => return false
  | some f => do
      let size ← castInt (-1) artifact.size
      let cast ← castInt 0 report.downloadedBytes
      let reported := max 0 cast
      if !acceptsReport worker f.task artifact size reported then
        return false
      else if artifact.sha256.isNone then
        raise .checkViolation
      else if ← read fun s => s.results.any fun r => r.taskId = taskId then
        return false
      else do
        attempt .integrityViolation <| Store.insertResult
          { id := taskId, taskId, finalUrl := report.finalUrl.getD f.task.normalizedUrl
            markdown := none, markdownRef := artifact.uri
            downloadedBytes := reported, artifactBytes := size }
        exec (completeRows x f reported size)
        insertLinks x f report.discoveredUrls 0
        return true

/-! ## Live sessions -/

/-- `LEAST(now() + make_interval(secs => ttl), deadline)`, which leaves NULL out. -/
def sessionExpiry (now : Time) (ttlSeconds : Option ℤ) (deadline : Time) : Time :=
  ttlSeconds.elim deadline fun ttl => min (now + seconds ttl) deadline

/-- `start_live_session`. `NOT BETWEEN` is unknown for a NULL time to live, and
does not raise. A NULL backend is left out: it passes the check too, and the insert,
if it comes to it, raises, for the column is NOT NULL. -/
def startLiveSession (x : Txn) (role : String) (taskId token : Uuid) (backend workerId : String)
    (ttlSeconds : Option ℤ) (code : String) : Tx (Option LiveSession) := do
  let worker ← identity role false
  if workerId ≠ worker.id || !validBackend backend || !ttlSeconds.all validTtl then
    raise (.invalidParameter "invalid live session request")
  else
    match ← read (activeTask x.now worker taskId token) with
    | none => return none
    | some f => do
        let expiresAt := sessionExpiry x.now ttlSeconds f.job.deadlineAt
        if expiresAt ≤ x.now then
          return none
        else do
          let session : LiveSession :=
            { id := x.uuid 0, taskId, backend, workerId := some worker.id, state := .waiting
              expiresAt }
          attempt .integrityViolation (Store.insertSession session)
          exec (parkTask x.now f code)
          return some session

/-- `wait_for_input`, as migration 0007 redefines it. -/
def waitForInput (x : Txn) (role : String) (taskId token : Uuid) (code : String) : Tx Bool := do
  let worker ← identity role false
  let started ← startLiveSession x role taskId token "owned" worker.id (some 900) code
  return started.isSome

/-- `touch_live_session`. -/
def touchLiveSession (x : Txn) (role : String) (id : Uuid) : Tx Bool := do
  let worker ← identity role false
  let mine (l : LiveSession) : Bool := attachable x.now id l && l.workerId = some worker.id
  let ok ← read fun s => s.sessions.any mine
  exec (setSessions mine .connected)
  return ok

/-- The rows `close_live_session` writes for a task it ends. -/
def endSessionTask (now : Time) (task : Task) (reason : CloseReason) (s : Store) : Store :=
  endAttempt now task reason (countEnded task reason (endTask now task reason s))

/-- What closing a session does to its task. -/
def closeTask (now : Time) (task : Task) (reason : CloseReason) (owned : Bool) (s : Store) :
    Store :=
  if task.state = .waitingInput then endSessionTask now task reason s
  else if task.state = .leased ∧ owned = true then
    endSessionTask now task reason (freeLease task s)
  else s

/-- `close_live_session`. `NOT IN` is unknown for a NULL reason, and does not
raise. -/
def closeLiveSession (x : Txn) (role : String) (id : Uuid) (reason : CloseReason) : Tx Bool := do
  let worker ← identity role true
  if reason.isSome && !reason.known then
    raise (.invalidParameter "invalid session close reason")
  else
    match ← read fun s => s.sessions.find? fun l =>
        l.id = id && l.workerId = some worker.id && l.state.live with
    | none => return false
    | some session =>
        match ← read fun s => s.task? session.taskId with
        | none => do
            exec (setSession id reason.session)
            return true
        | some task =>
            if task.state = .succeeded then
              exec (setSession id .closed)
              return true
            else
              exec (closeTask x.now task reason (decide (task.leaseOwner = some worker.id)))
              exec (setSession id reason.session)
              return true

/-- `resume_live_session`. The query for the job compares `deadline_at`, which
names a column of the job and an output column of the function: it raises, and
no statement after it runs. -/
def resumeLiveSession (x : Txn) (role : String) (id : Uuid) : Tx (Option ClaimedTask) := do
  let worker ← identity role false
  match ← read fun s => s.sessions.find? fun l => l.id = id && l.workerId = some worker.id &&
      l.state = .resuming && decide (x.now < l.expiresAt) with
  | none => return none
  | some session =>
      match ← read fun s => s.task? session.taskId with
      | none => return none
      | some task =>
          if task.state ≠ .waitingInput then return none
          else raise (.ambiguousColumn "deadline_at")

/-- `finish_live_session`. -/
def finishLiveSession (role : String) (id : Uuid) : Tx Bool := do
  let worker ← identity role true
  let done ← read fun s (l : LiveSession) => l.id = id && l.workerId = some worker.id &&
    l.state = .resuming && s.tasks.any fun t => t.id = l.taskId && t.state = .succeeded
  let ok ← read fun s => s.sessions.any done
  exec (setSessions done .closed)
  return ok

/-! ## Provider attempts -/

/-- `reserve_provider_attempt`. -/
def reserveProviderAttempt (x : Txn) (role : String) (taskId token : Uuid) (route : Route)
    (reserved : NativeValues) : Tx (Option Uuid) := do
  let worker ← identity role false
  match nativeCost route reserved with
  | .error message => raise (.invalidParameter message)
  | .ok cost =>
      if !worker.capabilities.contains route.capability then
        raise (.insufficientPrivilege "provider route capability denied")
      else
        match ← read (activeTask x.now worker taskId token) with
        | none => return none
        | some f =>
            if !(← read fun s => s.attemptAllowed f.job.config taskId route) then
              return none
            else if !(← read fun s => s.covers f.task.jobId route cost) then
              return none
            else do
              let earlier ← read fun s => (s.providerAttempts taskId).length
              adjustMeters f.task.jobId route.provider (fun m => (cost m).value) (fun _ => 0)
                route.meters
              attempt .integrityViolation <| Store.insertAttempt <|
                providerAttempt (x.uuid 0) f.task route (some worker.id) token cost earlier
              return some (x.uuid 0)

/-- `finish_provider_attempt`. A missing outcome passes the check. -/
def finishProviderAttempt (x : Txn) (role : String) (attemptId token : Uuid)
    (outcome : Option String) (actual : NativeValues) (estimated : Bool) : Tx Bool := do
  let worker ← identity role false
  if outcome.any fun o => !(["succeeded", "retryable_failure", "failed"].contains o) then
    raise (.invalidParameter "invalid provider completion")
  else
    match ← read fun s => s.attempts.find? fun a => a.id = attemptId &&
        a.leaseToken = some token && a.workerId = some worker.id with
    | none => return false
    | some a =>
        if a.finishedAt.isSome then return false
        else
          match a.route with
          | none => raise (.invalidParameter "provider native meter mismatch")
          | some route =>
              if !actual.keysWithin route then
                raise (.invalidParameter "provider native meter mismatch")
              else
                match ← read (activeTask x.now worker a.taskId token) with
                | none => return false
                | some f =>
                    if !actual.within route a.reservedCost.native then
                      raise (.invalidParameter "provider actual cost is invalid")
                    else do
                      CrawlTrove.settleAttempt x f.task.jobId a route a.reservedCost.native
                        actual.numeral outcome estimated
                      return true

/-! ## Enrolment -/

def setWorker (id : String) (state : WorkerState) (s : Store) : Store :=
  { s with workers := s.workers.update (fun w => w.id = id) fun w => { w with state } }

/-- `register`. -/
def register (role : String) (protocol : ℤ) (capabilities : List String) : Tx WorkerState := do
  match ← read fun s => s.workers.find? fun w => w.dbRole = role with
  | none => return .revoked
  | some worker =>
      if worker.state = .revoked then return .revoked
      else if worker.protocolVersion ≠ protocol ∨
          !capabilities.all worker.capabilities.contains then
        exec (setWorker worker.id .incompatible)
        return .incompatible
      else
        exec (setWorker worker.id .active)
        return .active

/-- `drain`. -/
def drain (role : String) : Tx Bool := do
  let mine (w : Worker) : Bool :=
    w.dbRole = role && w.state = .active && w.protocolVersion = 1
  let found ← read fun s => s.workers.any mine
  exec fun s => { s with workers := s.workers.update mine fun w => { w with state := .draining } }
  return found

end WorkerApi

end CrawlTrove
