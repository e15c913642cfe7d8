import CrawlTrove.Store.Repository

/-!
# Live sessions of the core

`app/acquisition/sessions.py` and `resume_live_session`: a leased task is
parked for a human, resumed under a new lease, or ended with its session.
-/

namespace CrawlTrove

open Relational Transaction

/-- `^[a-z][a-z0-9_-]{0,63}$`. -/
def validBackend (backend : String) : Bool :=
  let lower (c : Char) : Bool := decide ('a' ≤ c) && decide (c ≤ 'z')
  match backend.toList with
  | [] => false
  | c :: cs =>
      lower c && decide (cs.length ≤ 63) &&
      cs.all fun c => lower c || (decide ('0' ≤ c) && decide (c ≤ '9')) || c = '_' || c = '-'

def validTtl (ttlSeconds : ℤ) : Bool := decide (300 ≤ ttlSeconds) && decide (ttlSeconds ≤ 3600)

/-- The job takes a task's reservation back. -/
def Job.unreserve (task : Task) (j : Job) : Job :=
  { j with
    reservedBytes := max 0 (j.reservedBytes - task.byteBudgetReserved)
    reservedArtifactBytes := max 0 (j.reservedArtifactBytes - task.artifactBudgetReserved) }

theorem Job.key_unreserve (task : Task) (j : Job) :
    Keyed.key (Job.unreserve task j) = Keyed.key j := rfl

/-- Drop the lease of a parked task; the attempt keeps no cost. -/
def parkTask (now : Time) (f : FencedTask) (code : String) (s : Store) : Store :=
  let s := s.updateTasks (fun t => t.id = f.task.id) fun t =>
    { t.unlease with state := .waitingInput, errorCode := some code }
  let s := s.deleteOriginLeases fun l => l.taskId = f.task.id && l.leaseToken = f.token
  let s := s.deleteProxyLeases fun l => l.taskId = f.task.id
  let s := s.updateJobs (fun j => j.id = f.task.jobId) (Job.unreserve f.task)
    (Job.key_unreserve f.task)
  s.updateAttempts (fun a => a.taskId = f.task.id && a.attemptNumber = f.task.attemptCount)
    fun a => { a with finishedAt := some now, outcome := some "waiting_input", actualCost := {} }

/-- `wait_for_input_local`. The attempt number of the claim is the row's as
long as the claim's token is current. -/
def waitForInputLocal (x : Txn) (taskId token : Uuid) (backend workerId : String)
    (ttlSeconds : ℤ) : Tx LiveSession := do
  if !validTtl ttlSeconds || !validBackend backend || workerId = "" then
    raise (.invalidParameter "invalid session backend or worker ID")
  else
    match ← read fun s => s.fencedTask taskId token with
    | none => raise (.invalidParameter "task lease is no longer active for this worker")
    | some f =>
        if f.task.leaseOwner ≠ some workerId ∨ f.job.cancelRequestedAt.isSome ∨
            f.job.deadlineAt ≤ x.now then
          raise (.invalidParameter "task lease is no longer active for this worker")
        else do
          let session : LiveSession :=
            { id := x.uuid 0, taskId, backend, workerId := none, state := .waiting
              expiresAt := min (x.now + seconds ttlSeconds) f.job.deadlineAt }
          attempt .integrityViolation (Store.insertSession session)
          exec (parkTask x.now f "human_input_required")
          return session

def setSessions (p : LiveSession → Bool) (state : SessionState) (s : Store) : Store :=
  s.updateSessions p fun l => { l with state }

def setSession (id : Uuid) (state : SessionState) (s : Store) : Store :=
  setSessions (fun l => l.id = id) state s

/-- The waiting or connected session with this id, not yet past its expiry. -/
def attachable (now : Time) (id : Uuid) (l : LiveSession) : Bool :=
  l.id = id && (l.state = .waiting || l.state = .connected) && decide (now < l.expiresAt)

/-- `request_resume`. -/
def requestResume (x : Txn) (id : Uuid) (s : Store) : Store :=
  setSessions (attachable x.now id) .resuming s

/-- `touch`. -/
def touchSession (x : Txn) (id : Uuid) (s : Store) : Store :=
  setSessions (attachable x.now id) .connected s

/-- `close_completed`. -/
def closeCompleted (id : Uuid) (s : Store) : Store :=
  setSessions (fun l => l.id = id && l.state = .resuming) .closed s

/-- Why a session is closed, as the caller says it: a text, or `None` (NULL). -/
abbrev CloseReason := Option String

namespace CloseReason

def cancels (reason : CloseReason) : Bool := decide (reason = some "cancelled")

def expires (reason : CloseReason) : Bool := decide (reason = some "expired")

/-- `reason in {"cancelled", "expired"}`. -/
def known (reason : CloseReason) : Bool := reason.cancels || reason.expires

-- What is not a cancellation takes the other branch of each of these.

def session (reason : CloseReason) : SessionState :=
  if reason.cancels then .cancelled else .expired

def task (reason : CloseReason) : TaskState :=
  if reason.cancels then .cancelled else .permanentFailed

def errorClass (reason : CloseReason) : String :=
  if reason.cancels then "policy" else "transport"

def errorCode (reason : CloseReason) : String :=
  if reason.cancels then "human_input_cancelled" else "human_input_timeout"

def outcome (reason : CloseReason) : String := if reason.cancels then "cancelled" else "failed"

theorem task_cases (reason : CloseReason) :
    reason.task = .permanentFailed ∨ reason.task = .cancelled := by
  unfold task
  split
  · exact Or.inr rfl
  · exact Or.inl rfl

theorem not_queued_task (reason : CloseReason) : reason.task.queued = false := by
  rcases reason.task_cases with h | h <;> rw [h] <;> rfl

theorem cancels_of_expires {reason : CloseReason} (h : reason.expires = true) :
    reason.cancels = false := by
  have htext : reason = some "expired" := of_decide_eq_true h
  rw [htext]
  rfl

end CloseReason

/-- Free the lease of a task whose session ends while it is leased. -/
def freeLease (task : Task) (s : Store) : Store :=
  let s := s.updateJobs (fun j => j.id = task.jobId) (Job.unreserve task)
    (Job.key_unreserve task)
  let s := s.deleteOriginLeases fun l => l.taskId = task.id
  s.deleteProxyLeases fun l => l.taskId = task.id

/-- The task row of a closed session. -/
def endTask (now : Time) (task : Task) (reason : CloseReason) (s : Store) : Store :=
  s.updateTasks (fun t => t.id = task.id) fun t =>
    { t.unlease with
      state := reason.task
      errorClass := some reason.errorClass
      errorCode := some reason.errorCode
      finishedAt := some now }

/-- Its current attempt. -/
def endAttempt (now : Time) (task : Task) (reason : CloseReason) (s : Store) : Store :=
  s.updateAttempts (fun a => a.taskId = task.id && a.attemptNumber = task.attemptCount) fun a =>
    { a with
      finishedAt := some (a.finishedAt.getD now)
      outcome := some reason.outcome
      errorCode := some reason.errorCode }

/-- Its job. -/
def countEnded (task : Task) (reason : CloseReason) (s : Store) : Store :=
  s.updateJobs (fun j => j.id = task.jobId) fun j =>
    { j with
      terminalCount := j.terminalCount + 1
      failedCount := j.failedCount + if reason.expires then 1 else 0 }

/-- Terminalize the task of a closed session. -/
def endSessionTask (now : Time) (task : Task) (reason : CloseReason) (s : Store) : Store :=
  countEnded task reason (endAttempt now task reason (endTask now task reason s))

/-- What closing a session does to its task: a parked task ends, and so does a
leased one that the caller may end (`owned`), after giving up its lease. -/
def closeTask (now : Time) (task : Task) (reason : CloseReason) (owned : Bool) (s : Store) :
    Store :=
  if task.state = .waitingInput then endSessionTask now task reason s
  else if task.state = .leased ∧ owned = true then
    endSessionTask now task reason (freeLease task s)
  else s

/-- `close`: end a session and any task still parked or leased under it. -/
def closeSession (x : Txn) (id : Uuid) (reason : CloseReason) (workerId : Option String) :
    Tx Bool := do
  if !reason.known then
    raise (.invalidParameter "invalid session close reason")
  else
    match ← read fun s => s.sessions.find? fun l => l.id = id && l.state.live with
    | none => return false
    | some session =>
        match ← read fun s => s.task? session.taskId with
        | none => do
            exec (setSession id reason.session)
            return true
        | some task =>
            if task.state = .succeeded then
              exec (setSession id .closed)
              return true
            else
              exec (closeTask x.now task reason
                (reason.cancels || decide (task.leaseOwner = workerId)))
              exec (setSession id reason.session)
              return true

/-- One expired session of `expire_due`. -/
def expireSession (x : Txn) (session : LiveSession) (s : Store) : Store :=
  match s.task? session.taskId with
  | none => s
  | some task =>
      if task.state ≠ .waitingInput then s
      else
        let s := s.updateTasks (fun t => t.id = task.id && t.state = .waitingInput) fun t =>
          { t with
            state := .permanentFailed
            errorClass := some "transport"
            errorCode := some "human_input_timeout"
            finishedAt := some x.now }
        let s := s.updateAttempts
          (fun a => a.taskId = task.id && a.attemptNumber = task.attemptCount) fun a =>
          { a with
            finishedAt := some (a.finishedAt.getD x.now)
            outcome := some "failed"
            errorCode := some "human_input_timeout" }
        s.updateJobs (fun j => j.id = task.jobId) fun j =>
          { j with terminalCount := j.terminalCount + 1, failedCount := j.failedCount + 1 }

/-- `expire_due`. -/
def expireDue (x : Txn) (s : Store) : Store :=
  let due (l : LiveSession) : Bool := l.state.live && decide (l.expiresAt ≤ x.now)
  let rows := s.sessions.select due
  rows.foldl (fun s l => expireSession x l s)
    (s.updateSessions due fun l => { l with state := .expired })

/-- The lease of a resumed task. -/
def grantResumed (x : Txn) (workerId : String) (task : Task) (job : Job) (bytes artifacts : ℤ) :
    Tx ClaimedTask := do
  let token := x.uuid 0
  exec (reserveBudget task.jobId bytes artifacts)
  exec <| Store.updateTasks (fun t => t.id = task.id) fun t =>
    t.lease x.now workerId token bytes artifacts
  attempt .integrityViolation <| Store.insertOriginLease <| originLease x.now task token
  return {
    id := task.id, jobId := task.jobId, url := task.originalUrl
    normalizedUrl := task.normalizedUrl, originKey := task.originKey, depth := task.depth
    attempt := task.attemptCount, leaseToken := token, deadlineAt := job.deadlineAt
    config := job.config, byteAllowance := bytes, artifactAllowance := artifacts
    requiredCapabilities := task.requiredCapabilities }

/-- `resume_live_session`: re-fence a parked local task. -/
def resumeLiveSession (x : Txn) (id : Uuid) (workerId : String) : Tx (Option ClaimedTask) := do
  match ← read fun s => s.sessions.find? fun l => l.id = id && l.workerId.isNone &&
      l.state = .resuming && decide (x.now < l.expiresAt) with
  | none => return none
  | some session =>
      match ← read fun s => s.task? session.taskId with
      | none => return none
      | some task =>
          match ← read fun s => s.job? task.jobId with
          | none => return none
          | some job =>
              if task.state ≠ .waitingInput ∨ job.cancelRequestedAt.isSome ∨
                  job.deadlineAt ≤ x.now then
                return none
              else if ← read fun s => s.originLeased task.originKey then
                return none
              else
                let bytes := min job.remainingBytes (responseCap task.normalizedUrl)
                let artifacts := min job.remainingArtifacts inlineArtifactCap
                if bytes ≤ 0 ∨ artifacts ≤ 0 then
                  return none
                else
                  some <$> grantResumed x workerId task job bytes artifacts

end CrawlTrove
