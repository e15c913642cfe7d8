import CrawlTrove.Store.Schema

/-!
# Leases, settlements and drains

The private helpers of `app/crawl/repository.py` that end a lease, charge a
job, terminalize work and reconcile provider reservations. Helpers that
cannot raise are functions on the store; the others are transactions.
-/

namespace CrawlTrove

open Relational Transaction

/-! ## Reported values -/

/-- A JSON value where the code expects an integer. `py` is what Python's
`int` makes of it (`none` when it raises), `sql` what the cast to `BIGINT`
makes of it (`none` when the cast fails). -/
inductive ReportedInt
  | absent
  | null
  | value (py sql : Option ℤ)
deriving DecidableEq

/-- `int(metadata.get(key, 0))`; `none` is a `TypeError` or `ValueError`. -/
def ReportedInt.py? : ReportedInt → Option ℤ
  | .absent => some 0
  | .null => none
  | .value py _ => py

/-- `COALESCE((metadata ->> key)::BIGINT, default)`; `none` is a failed cast. -/
def ReportedInt.sql? (default : ℤ) : ReportedInt → Option ℤ
  | .absent | .null => some default
  | .value _ sql => sql

/-- The entries of a result's or failure's metadata that the store reads. -/
structure Metadata where
  downloadedBytes : ReportedInt := .absent
  screenshotBytes : ReportedInt := .absent
  reason : Option String := none
  errorCode : Option String := none
deriving DecidableEq

/-- Python's `a or b` on optional strings. -/
def pyOr (a b : Option String) : Option String :=
  match a with
  | none => b
  | some text => if text = "" then b else some text

/-! ## The fence -/

/-- The row `_fenced_task` returns: the leased task and its job, both locked. -/
structure FencedTask where
  task : Task
  job : Job
  token : Uuid
deriving DecidableEq

/-- `_fenced_task`: the task is leased under exactly this token. -/
def Store.fencedTask (s : Store) (taskId token : Uuid) : Option FencedTask :=
  match s.tasks.find? fun t => t.id = taskId && t.state = .leased && t.leaseToken = some token with
  | none => none
  | some task => (s.job? task.jobId).map fun job => ⟨task, job, token⟩

theorem Store.fencedTask_eq_some {s : Store} {taskId token : Uuid} {f : FencedTask}
    (h : s.fencedTask taskId token = some f) :
    f.task ∈ s.tasks ∧ f.task.id = taskId ∧ f.task.state = .leased ∧
      f.task.leaseToken = some token ∧ f.job ∈ s.jobs ∧ f.job.id = f.task.jobId ∧
      f.token = token := by
  unfold Store.fencedTask at h
  split at h
  · cases h
  · rename_i task htask
    obtain ⟨hmem, hp⟩ := Table.find?_eq_some htask
    obtain ⟨job, hjob, rfl⟩ := Option.map_eq_some_iff.mp h
    obtain ⟨hj, hid⟩ := Store.job?_eq_some.mp hjob
    simp only [Bool.and_eq_true, decide_eq_true_eq] at hp
    exact ⟨hmem, hp.1.1, hp.1.2, hp.2, hj, hid, rfl⟩

/-! ## Ending a lease -/

/-- `_release_lease`. -/
def releaseLease (f : FencedTask) (s : Store) : Store :=
  (s.updateJobs (fun j => j.id = f.task.jobId) fun j =>
    { j with
      reservedBytes := max 0 (j.reservedBytes - f.task.byteBudgetReserved)
      reservedArtifactBytes :=
        max 0 (j.reservedArtifactBytes - f.task.artifactBudgetReserved) }).deleteOriginLeases
    fun l => l.taskId = f.task.id && l.leaseToken = f.token

/-- `_actual_bytes`: what a report may charge to the lease. -/
def actualBytes (task : Task) (metadata : Metadata) : ℤ :=
  min task.byteBudgetReserved (max 0 (metadata.downloadedBytes.py?.getD 0))

/-- `_finish_attempt`: close the worker attempt of the current lease. -/
def finishAttempt (now : Time) (task : Task) (outcome : String) (metadata : Metadata)
    (downloadedBytes artifactBytes : ℤ) (s : Store) : Store :=
  s.updateAttempts (fun a => a.taskId = task.id && a.attemptNumber = task.attemptCount) fun a =>
    { a with
      finishedAt := some now
      actualCost :=
        { downloadedBytes := some downloadedBytes, artifactBytes := some artifactBytes }
      outcome := some outcome
      errorCode := pyOr metadata.reason metadata.errorCode }

/-- `_charge_download`. -/
def chargeDownload (task : Task) (downloadedBytes : ℤ) (s : Store) : Store :=
  if downloadedBytes ≠ 0 then
    s.updateJobs (fun j => j.id = task.jobId) fun j =>
      { j with downloadedBytes := j.downloadedBytes + downloadedBytes }
  else s

/-- A task loses its lease and its reservation. -/
def Task.unlease (t : Task) : Task :=
  { t with
    leaseOwner := none
    leaseToken := none
    leaseExpiresAt := none
    byteBudgetReserved := 0
    artifactBudgetReserved := 0 }

/-- `_drain_unleased`: terminalize queued work after a job-wide hard stop. -/
def drainUnleased (now : Time) (jobId : Uuid) (reason : String) (s : Store) : Store :=
  let drained := s.tasks.count fun t => t.jobId = jobId && t.state.queued
  let s := s.updateTasks (fun t => t.jobId = jobId && t.state.queued) fun t =>
    { t.unlease with
      state := .permanentFailed
      errorClass := some "budget"
      errorCode := some reason
      finishedAt := some now }
  if drained ≠ 0 then
    s.updateJobs (fun j => j.id = jobId) fun j =>
      { j with
        terminalCount := j.terminalCount + drained
        failedCount := j.failedCount + drained
        terminalReason := some reason }
  else s

/-- `_enforce_failure_limit`. -/
def enforceFailureLimit (now : Time) (jobId : Uuid) (s : Store) : Store :=
  match s.job? jobId with
  | none => s
  | some job =>
      if job.config.maxFailures ≤ job.failedCount then
        drainUnleased now jobId "max_failures_exceeded" s
      else s

/-- The text of a task state, as attempts record it. -/
def TaskState.text : TaskState → String
  | .pending => "pending"
  | .leased => "leased"
  | .retryWait => "retry_wait"
  | .succeeded => "succeeded"
  | .httpError => "http_error"
  | .blockedRobots => "blocked_robots"
  | .extractionFailed => "extraction_failed"
  | .permanentFailed => "permanent_failed"
  | .cancelled => "cancelled"
  | .waitingInput => "waiting_input"

/-- The task part of `_terminalize`. -/
def terminalizeTask (now : Time) (f : FencedTask) (state : TaskState)
    (errorClass errorCode : Option String) (s : Store) : Store :=
  s.updateTasks (fun t => t.id = f.task.id && t.leaseToken = some f.token) fun t =>
    { t.unlease with state, errorClass, errorCode, finishedAt := some now }

/-- The job part of `_terminalize`: count the task, and finish the job when it
was waiting only for this lease to be cancelled. -/
def terminalizeJob (now : Time) (jobId : Uuid) (state : TaskState) (s : Store) : Store :=
  let active := s.hasLeased jobId
  s.updateJobs (fun j => j.id = jobId) fun j =>
    { j with
      terminalCount := j.terminalCount + 1
      failedCount := j.failedCount + if state = .permanentFailed then 1 else 0
      state := if j.cancelRequestedAt.isSome && !active then .cancelled else j.state
      finishedAt :=
        if j.cancelRequestedAt.isSome && !active then some now else j.finishedAt }

/-- `_terminalize`. -/
def terminalize (now : Time) (f : FencedTask) (state : TaskState)
    (errorClass errorCode : Option String) (s : Store) : Store :=
  let s := terminalizeTask now f state errorClass errorCode s
  let s := releaseLease f s
  let s := terminalizeJob now f.task.jobId state s
  let s := if state = .permanentFailed then enforceFailureLimit now f.task.jobId s else s
  finishAttempt now f.task state.text { errorCode } 0 0 s

/-! ## Provider reservations -/

/-- The row still meets its checks after the two values move. -/
def Usage.admits (reserved consumed : ℚ) (u : Usage) : Bool :=
  decide (0 ≤ u.reservedValue + reserved) && decide (0 ≤ u.consumedValue + consumed) &&
    decide (u.reservedValue + reserved + (u.consumedValue + consumed) ≤ u.limitValue)

/-- Move the reserved and the consumed value; a row that would break a check
stays as it is. -/
def Usage.adjust (reserved consumed : ℚ) (u : Usage) : Usage :=
  if h : u.admits reserved consumed = true then
    { u with
      reservedValue := u.reservedValue + reserved
      consumedValue := u.consumedValue + consumed
      reserved_nonneg := by simp only [admits, Bool.and_eq_true, decide_eq_true_eq] at h; exact h.1.1
      consumed_nonneg := by simp only [admits, Bool.and_eq_true, decide_eq_true_eq] at h; exact h.1.2
      within_limit := by simp only [admits, Bool.and_eq_true, decide_eq_true_eq] at h; exact h.2 }
  else u

theorem Usage.key_adjust (reserved consumed : ℚ) (u : Usage) :
    Keyed.key (u.adjust reserved consumed) = Keyed.key u := by
  unfold adjust; split <;> rfl

/-- The ledger row of a job, provider and meter. -/
def Store.usage? (s : Store) (jobId : Uuid) (provider : Provider) (meter : Meter) :
    Option Usage :=
  s.usage.find? fun u => u.jobId = jobId && u.provider = provider && u.meter = meter

/-- `UPDATE crawl_provider_usage` for one meter: raises when the row is
missing or a check fails. -/
def adjustUsage (jobId : Uuid) (provider : Provider) (meter : Meter)
    (reserved consumed : ℚ) : Tx PUnit := do
  match ← read fun s => s.usage? jobId provider meter with
  | none => raise (.protocol "provider usage meter is missing")
  | some u =>
      if u.admits reserved consumed then
        exec fun s =>
          { s with
            usage := s.usage.update
              (fun u => u.jobId = jobId && u.provider = provider && u.meter = meter)
              (Usage.adjust reserved consumed) (Usage.key_adjust reserved consumed) }
      else raise .checkViolation

/-- One adjustment for each meter, in order. -/
def adjustMeters (jobId : Uuid) (provider : Provider) (reserved consumed : Meter → ℚ) :
    List Meter → Tx PUnit
  | [] => pure ⟨⟩
  | m :: meters => do
      adjustUsage jobId provider m (reserved m) (consumed m)
      adjustMeters jobId provider reserved consumed meters

/-- The reservation of a provider attempt is no longer backed by a lease. -/
def Store.abandoned (x : Txn) (only : Option Uuid) (s : Store) (a : Attempt) : Bool :=
  a.finishedAt.isNone && a.leaseToken.isSome &&
  (only.isNone || decide (only = some a.taskId)) &&
  match s.task? a.taskId, s.job? a.jobId with
  | some t, some j =>
      (decide (t.state ≠ .leased) || decide (t.leaseToken ≠ a.leaseToken) ||
        t.leaseExpiresAt.any (· ≤ x.now) || j.cancelRequestedAt.isSome ||
        decide (j.deadlineAt ≤ x.now)) &&
      !x.lockedAttempt a.id && !x.lockedTask t.id && !x.lockedJob j.id
  | _, _ => false

/-- Consume one abandoned reservation in full, as its column reads in Python. -/
def consumeAbandoned (x : Txn) (a : Attempt) : Tx PUnit := do
  match a.route with
  | none => raise (.protocol "unknown acquisition route")
  | some route =>
      match nativeCost route (a.reservedCost.loads route).toNativeValues with
      | .error message => raise (.protocol message)
      | .ok reserved => do
          if route.provider ≠ .local' then
            adjustMeters a.jobId route.provider (fun m => -(reserved m).value)
              (fun m => (reserved m).value) route.meters
          exec <| Store.updateAttempts (fun b => b.id = a.id && b.finishedAt.isNone) fun b =>
            { b with
              finishedAt := some x.now
              actualCost := { native := reserved }
              outcome := some "abandoned"
              errorCode := some "lease_inactive"
              costEstimated := true }

def consumeAll (x : Txn) : List Attempt → Tx PUnit
  | [] => pure ⟨⟩
  | a :: attempts => do
      consumeAbandoned x a
      consumeAll x attempts

/-- `_reconcile_abandoned_acquisition_attempts`: conservatively consume native
reservations once their lease is no longer valid. -/
def reconcileAbandoned (x : Txn) (only : Option Uuid) : Tx PUnit := do
  let attempts ← read fun s => s.attempts.select (s.abandoned x only)
  consumeAll x attempts

/-- `_reject_inactive_lease`: a lease of a cancelled or expired job ends here. -/
def rejectInactiveLease (x : Txn) (f : FencedTask) : Tx Bool := do
  if f.job.cancelRequestedAt.isSome then
    exec (terminalize x.now f .cancelled none none)
    reconcileAbandoned x (some f.task.id)
    return true
  else if f.job.deadlineAt ≤ x.now then
    exec (terminalize x.now f .permanentFailed (some "policy") (some "deadline_exceeded"))
    reconcileAbandoned x (some f.task.id)
    return true
  else
    return false

/-- `_fenced_task` followed by `_reject_inactive_lease`, with which every
fenced operation of the core begins: the current lease of an active job. -/
def activeLease (x : Txn) (taskId token : Uuid) : Tx (Option FencedTask) := do
  match ← read fun s => s.fencedTask taskId token with
  | none => return none
  | some f => do
      if ← rejectInactiveLease x f then
        return none
      else
        return some f

end CrawlTrove
