import CrawlTrove.Store.System

/-!
# The life cycle of crawl work

What the forty transactions of the store do to a job comes down to twelve
actions: a job is submitted, a lease is granted and settled, queued work is
drained, a parked task expires, a job is flagged and closed, a child is
discovered, a retry job is planted and recounted, a provider call is reserved
and settled, and everything else, which the invariants do not see.

An action relates two stores table by table and only on the columns the
invariants read (`core`). Its label says when it is one of the events the
claims single out. `Lifecycle.Refinement` shows that each transaction commits
a sequence of these actions; the invariants are proved action by action.
-/

namespace CrawlTrove

open Relational Numerals

/-! ## The columns the invariants read -/

/-- A job without its page counter, times and reason, and with `pending` and
`running` identified. -/
def Job.core (j : Job) : Job :=
  { j with
    browserPageCount := 0, startedAt := none, finishedAt := none, terminalReason := none
    state := if j.state.terminal then j.state else .running }

/-- A task without its schedule, lease owner and error. -/
def Task.core (t : Task) : Task :=
  { t with
    availableAt := 0, leaseOwner := none, leaseExpiresAt := none
    errorClass := none, errorCode := none, startedAt := none, finishedAt := none }

/-- A permit without its expiry. -/
def OriginLease.core (l : OriginLease) : OriginLease := { l with expiresAt := 0 }

/-- `j'` is what `spec` makes of `j`, up to the columns nothing reads. -/
def Job.To (spec : Job → Job) (j j' : Job) : Prop := j'.core = (spec j).core

def Task.To (spec : Task → Task) (t t' : Task) : Prop := t'.core = (spec t).core

/-- What a column that `core` keeps reads after `spec`. -/
theorem Job.To.get {α : Type*} {spec : Job → Job} {j j' : Job} (h : Job.To spec j j')
    (π : Job → α) (hπ : ∀ j : Job, π j.core = π j) : π j' = π (spec j) := by
  rw [← hπ j', ← hπ (spec j), show j'.core = (spec j).core from h]

theorem Task.To.get {α : Type*} {spec : Task → Task} {t t' : Task} (h : Task.To spec t t')
    (π : Task → α) (hπ : ∀ t : Task, π t.core = π t) : π t' = π (spec t) := by
  rw [← hπ t', ← hπ (spec t), show t'.core = (spec t).core from h]

theorem Job.core_terminal (j : Job) : j.core.state.terminal = j.state.terminal := by
  by_cases h : j.state.terminal = true
  · simp [Job.core, h]
  · have hrunning : j.core.state = .running := if_neg h
    rw [hrunning]
    simpa [JobState.terminal] using h

namespace Lifecycle

/-! ## What actions do to rows -/

/-- A lease reserves its allowances. -/
def reserve (bytes artifacts : ℤ) (j : Job) : Job :=
  { j with
    reservedBytes := j.reservedBytes + bytes
    reservedArtifactBytes := j.reservedArtifactBytes + artifacts }

/-- The columns a lease sets on its task. -/
def granted (token : Uuid) (bytes artifacts : ℤ) (resumed : Bool) (t : Task) : Task :=
  { t with
    state := .leased
    leaseToken := some token
    byteBudgetReserved := bytes
    artifactBudgetReserved := artifacts
    attemptCount := t.attemptCount + if resumed then 0 else 1 }

/-- A lease ends in state `σ`: its reservation is released, what it used is
charged and the outcome counted. A robots block and a permanent failure may go
uncounted. -/
def settleJob (t : Task) (σ : TaskState) (downloaded artifacts : ℤ) (counted : Bool) (j : Job) :
    Job :=
  { j with
    reservedBytes := max 0 (j.reservedBytes - t.byteBudgetReserved)
    reservedArtifactBytes := max 0 (j.reservedArtifactBytes - t.artifactBudgetReserved)
    downloadedBytes := j.downloadedBytes + downloaded
    artifactBytes := j.artifactBytes + artifacts
    terminalCount := j.terminalCount + if σ.terminal then 1 else 0
    succeededCount := j.succeededCount + if σ = .succeeded then 1 else 0
    failedCount := j.failedCount + if σ.failed ∧ counted = true then 1 else 0
    blockedCount := j.blockedCount + if σ = .blockedRobots ∧ counted = true then 1 else 0 }

/-- The task of a lease that ends in state `σ`. -/
def settleTask (σ : TaskState) (t : Task) : Task := { t.unlease with state := σ }

/-- `n` queued tasks end in state `σ`. -/
def drainJob (σ : TaskState) (n : ℤ) (counted : Bool) (j : Job) : Job :=
  { j with
    terminalCount := j.terminalCount + n
    failedCount := j.failedCount + if σ.failed ∧ counted = true then n else 0 }

/-- A queued task ends in state `σ`; it holds no lease, whether or not the
statement clears the columns. -/
def Drained (σ : TaskState) (t t' : Task) : Prop :=
  Task.To (settleTask σ) t t' ∨ Task.To (fun t => { t with state := σ }) t t'

/-- The worker attempt of a lease is closed with these costs. A statement that
leaves the costs alone closes an attempt without costs with none. -/
structure ClosedWith (downloaded artifacts : ℤ) (a a' : Attempt) : Prop where
  jobId : a'.jobId = a.jobId
  route : a'.route = a.route
  provider : a'.provider = a.provider
  leaseToken : a'.leaseToken = a.leaseToken
  reservedCost : a'.reservedCost = a.reservedCost
  downloaded_eq : a.actualCost.downloadedBytes.getD 0 = 0 →
    a'.actualCost.downloadedBytes.getD 0 = downloaded
  artifacts_eq : a.actualCost.artifactBytes.getD 0 = 0 →
    a'.actualCost.artifactBytes.getD 0 = artifacts

/-- The attempt row of the task's current lease. -/
def currentAttempt (t : Task) (a : Attempt) : Bool :=
  a.taskId = t.id && a.attemptNumber = t.attemptCount

/-! ## Actions -/

/-- Nothing an invariant reads changes. -/
structure Idles (s s' : Store) : Prop where
  jobs : s.jobs.Changed (fun _ => true) (Job.To id) s'.jobs
  tasks : s.tasks.Changed (fun _ => true) (Task.To id) s'.tasks
  leases : s.originLeases.Changed (fun _ => true) (fun l l' => l'.core = l.core) s'.originLeases
  attempts : s'.attempts = s.attempts
  usage : s'.usage = s.usage

/-- A job and its seed are inserted with an empty ledger. -/
structure Submits (j : Job) (seed : Task) (s s' : Store) : Prop where
  fresh : j.state.terminal = false ∧ j.cancelRequestedAt = none
  counters : j.discoveredCount = 1 ∧ j.nextDiscoverySeq = 1 ∧ j.terminalCount = 0 ∧
    j.succeededCount = 0 ∧ j.failedCount = 0 ∧ j.blockedCount = 0
  budget : j.reservedBytes = 0 ∧ j.reservedArtifactBytes = 0 ∧ j.downloadedBytes = 0 ∧
    j.artifactBytes = 0 ∧ 0 ≤ j.maxBytes ∧ 0 ≤ j.maxArtifactBytes
  pages : 1 ≤ j.maxPages ∧ 0 ≤ j.config.maxDepth
  seed_job : seed.jobId = j.id
  seed_place : seed.discoverySeq = 0 ∧ seed.depth = 0 ∧ seed.discoveredFromTaskId = none
  seed_state : seed.state = .pending ∧ seed.leaseToken = none ∧ seed.byteBudgetReserved = 0 ∧
    seed.artifactBudgetReserved = 0
  jobs : s.jobs.insert? j = some s'.jobs
  tasks : s.tasks.insert? seed = some s'.tasks
  leases : s'.originLeases = s.originLeases
  attempts : s'.attempts = s.attempts
  usage : ∀ u ∈ s'.usage, u ∈ s.usage ∨
    u.jobId = j.id ∧ u.reservedValue = 0 ∧ u.consumedValue = 0

/-- A lease is granted, by a claim or (`resumed`) to a parked task. -/
structure Leases (j : Job) (t : Task) (token : Uuid) (bytes artifacts : ℤ) (resumed : Bool)
    (s s' : Store) : Prop where
  job : j ∈ s.jobs ∧ j.id = t.jobId ∧ j.cancelRequestedAt = none
  task : t ∈ s.tasks
  state : if resumed then t.state = .waitingInput else t.state = .pending ∨ t.state = .retryWait
  bytes_ok : 0 < bytes ∧ bytes ≤ j.remainingBytes
  artifacts_ok : 0 < artifacts ∧ artifacts ≤ j.remainingArtifacts
  free : ∀ l ∈ s.originLeases, l.originKey ≠ t.originKey
  jobs : s.jobs.Changed (fun x => x.id = t.jobId) (Job.To (reserve bytes artifacts)) s'.jobs
  tasks : s.tasks.Changed (fun x => x.id = t.id)
    (Task.To (granted token bytes artifacts resumed)) s'.tasks
  leases : ∃ l : OriginLease, l.originKey = t.originKey ∧ l.taskId = t.id ∧
    l.leaseToken = token ∧ s.originLeases.insert? l = some s'.originLeases
  attempts : if resumed then s'.attempts = s.attempts else
    ∃ a : Attempt, a.jobId = t.jobId ∧ a.taskId = t.id ∧ a.attemptNumber = t.attemptCount + 1 ∧
      a.leaseToken = none ∧ a.actualCost = {} ∧ s.attempts.insert? a = some s'.attempts
  usage : s'.usage = s.usage

/-- The lease of `t` ends in state `σ`. -/
structure Settles (t : Task) (σ : TaskState) (downloaded artifacts : ℤ) (counted : Bool)
    (s s' : Store) : Prop where
  task : t ∈ s.tasks ∧ t.state = .leased
  ends : σ ≠ .leased ∧ σ ≠ .pending
  downloaded_ok : 0 ≤ t.byteBudgetReserved →
    0 ≤ downloaded ∧ downloaded ≤ t.byteBudgetReserved
  artifacts_ok : 0 ≤ t.artifactBudgetReserved →
    0 ≤ artifacts ∧ artifacts ≤ t.artifactBudgetReserved
  counted_ok : counted = false → σ = .blockedRobots ∨ σ = .permanentFailed
  parked_ok : σ = .waitingInput → downloaded = 0 ∧ artifacts = 0
  jobs : s.jobs.Changed (fun x => x.id = t.jobId)
    (Job.To (settleJob t σ downloaded artifacts counted)) s'.jobs
  tasks : s.tasks.Changed (fun x => x.id = t.id) (Task.To (settleTask σ)) s'.tasks
  leases : ∃ p, s'.originLeases = s.originLeases.delete p ∧
    (∀ l ∈ s.originLeases, p l = true → l.taskId = t.id) ∧
    ∀ l ∈ s.originLeases, l.taskId = t.id → t.leaseToken = some l.leaseToken → p l = true
  attempts : s.attempts.Changed (currentAttempt t) (ClosedWith downloaded artifacts) s'.attempts
  usage : s'.usage = s.usage

/-- Every queued task of the job ends in state `σ`. -/
structure Drains (jobId : Uuid) (σ : TaskState) (s s' : Store) : Prop where
  ends : σ = .permanentFailed ∨ σ = .cancelled
  jobs : s.jobs.Changed (fun x => x.id = jobId)
    (Job.To (drainJob σ (s.tasks.count fun t => t.jobId = jobId && t.state.queued) true)) s'.jobs
  tasks : s.tasks.Changed (fun t => t.jobId = jobId && t.state.queued) (Drained σ) s'.tasks
  leases : s'.originLeases = s.originLeases
  attempts : s'.attempts = s.attempts
  usage : s'.usage = s.usage

/-- The parked task `t` ends in state `σ` with its session. -/
structure Expires (t : Task) (σ : TaskState) (counted : Bool) (s s' : Store) : Prop where
  task : t ∈ s.tasks ∧ t.state = .waitingInput
  ends : σ = .permanentFailed ∨ σ = .cancelled
  jobs : s.jobs.Changed (fun x => x.id = t.jobId) (Job.To (drainJob σ 1 counted)) s'.jobs
  tasks : s.tasks.Changed (fun x => x.id = t.id) (Drained σ) s'.tasks
  leases : s'.originLeases = s.originLeases
  attempts : s.attempts.Changed (currentAttempt t) (ClosedWith 0 0) s'.attempts
  usage : s'.usage = s.usage

/-- Cancellation is requested, once nothing of the job is queued. -/
structure Flags (jobId : Uuid) (now : Time) (s s' : Store) : Prop where
  idle : ∀ t ∈ s.tasks, t.jobId = jobId → t.state.queued = false
  active : ∀ j ∈ s.jobs, j.id = jobId → j.state.terminal = false
  jobs : s.jobs.Changed (fun x => x.id = jobId) (Job.To fun j =>
    { j with cancelRequestedAt := some (j.cancelRequestedAt.getD now) }) s'.jobs
  tasks : s'.tasks = s.tasks
  leases : s'.originLeases = s.originLeases
  attempts : s'.attempts = s.attempts
  usage : s'.usage = s.usage

/-- How many tasks of the job are in a state `p` accepts. -/
def tally (s : Store) (jobId : Uuid) (p : TaskState → Bool) : ℤ :=
  s.tasks.count fun t => t.jobId = jobId && p t.state

/-- The job ends: a cancelled one with its last lease, any other one by the
finalizer's verdict over its terminal tasks. -/
structure Closes (jobId : Uuid) (state : JobState) (s s' : Store) : Prop where
  verdict :
    (state = .cancelled ∧ (∀ j ∈ s.jobs, j.id = jobId → j.cancelRequestedAt.isSome = true) ∧
      ∀ t ∈ s.tasks, t.jobId = jobId → t.state ≠ .leased) ∨
    ((∃ j ∈ s.jobs, j.id = jobId ∧ j.state.terminal = false ∧ ∃ expired,
        state = finalState j.cancelRequestedAt.isSome expired (tally s jobId (· = .succeeded))
          (tally s jobId (· = .blockedRobots)) (tally s jobId TaskState.failed)) ∧
      ∀ t ∈ s.tasks, t.jobId = jobId → t.state.terminal = true)
  jobs : s.jobs.Changed (fun x => x.id = jobId) (Job.To fun j => { j with state }) s'.jobs
  tasks : s'.tasks = s.tasks
  leases : s'.originLeases = s.originLeases
  attempts : s'.attempts = s.attempts
  usage : s'.usage = s.usage

/-- A page that succeeded adds a child to the frontier. -/
structure Discovers (j : Job) (parent child : Task) (s s' : Store) : Prop where
  job : j ∈ s.jobs ∧ j.id = parent.jobId ∧ j.cancelRequestedAt = none
  parent_ok : parent ∈ s.tasks ∧ parent.state = .succeeded
  room : j.discoveredCount < j.maxPages
  place : child.jobId = parent.jobId ∧ child.discoverySeq = j.nextDiscoverySeq ∧
    child.depth = parent.depth + 1 ∧ child.depth ≤ j.config.maxDepth ∧
    child.originKey = parent.originKey ∧ child.discoveredFromTaskId = some parent.id
  state : child.state = .pending ∧ child.leaseToken = none ∧ child.byteBudgetReserved = 0 ∧
    child.artifactBudgetReserved = 0
  jobs : s.jobs.Changed (fun x => x.id = parent.jobId) (Job.To fun j =>
    { j with
      discoveredCount := j.discoveredCount + 1
      nextDiscoverySeq := j.nextDiscoverySeq + 1 }) s'.jobs
  tasks : s.tasks.insert? child = some s'.tasks
  leases : s'.originLeases = s.originLeases
  attempts : s'.attempts = s.attempts
  usage : s'.usage = s.usage

/-- A retry job receives a further seed, not yet counted. -/
structure Plants (child : Task) (s s' : Store) : Prop where
  job : ∃ j ∈ s.jobs, j.id = child.jobId
  state : child.state = .pending ∧ child.leaseToken = none ∧ child.byteBudgetReserved = 0 ∧
    child.artifactBudgetReserved = 0
  tasks : s.tasks.insert? child = some s'.tasks
  jobs : s'.jobs = s.jobs
  leases : s'.originLeases = s.originLeases
  attempts : s'.attempts = s.attempts
  usage : s'.usage = s.usage

/-- The counters of a retry job are set. -/
structure Recounts (jobId : Uuid) (n : ℤ) (s s' : Store) : Prop where
  jobs : s.jobs.Changed (fun x => x.id = jobId) (Job.To fun j =>
    { j with discoveredCount := n, nextDiscoverySeq := n }) s'.jobs
  tasks : s'.tasks = s.tasks
  leases : s'.originLeases = s.originLeases
  attempts : s'.attempts = s.attempts
  usage : s'.usage = s.usage

/-- The ledger rows of one job, provider and list of meters. -/
def onLedger (jobId : Uuid) (provider : Provider) (meters : List Meter) (u : Usage) : Bool :=
  u.jobId = jobId && u.provider = provider && meters.contains u.meter

/-- A ledger row moves by the given values. -/
structure Moves (reserved consumed : Meter → ℚ) (u u' : Usage) : Prop where
  limit : u'.limitValue = u.limitValue
  reserved : u'.reservedValue = u.reservedValue + reserved u.meter
  consumed : u'.consumedValue = u.consumedValue + consumed u.meter

/-- A provider call is reserved under the current lease. -/
structure Reserves (j : Job) (t : Task) (a : Attempt) (route : Route) (s s' : Store) : Prop where
  job : j ∈ s.jobs ∧ j.id = t.jobId
  task : t ∈ s.tasks ∧ t.state = .leased
  attempt : a.jobId = t.jobId ∧ a.taskId = t.id ∧ a.route = some route ∧
    a.provider = some route.provider ∧ a.leaseToken = t.leaseToken ∧
    a.leaseToken.isSome = true ∧ a.finishedAt = none ∧ a.actualCost = {}
  cost : (∀ m, 0 ≤ a.reservedCost.amount m) ∧
    ∀ m, m ∉ route.meters → a.reservedCost.native m = 0
  allowed : s.attemptAllowed j.config t.id route = true
  jobs : s'.jobs = s.jobs
  tasks : s'.tasks = s.tasks
  leases : s'.originLeases = s.originLeases
  attempts : s.attempts.insert? a = some s'.attempts
  usage : s.usage.Changed (onLedger t.jobId route.provider route.meters)
    (Moves a.reservedCost.amount fun _ => 0) s'.usage

/-- A reserved provider call is settled: what its reservation reads as is
released and what it cost consumed. -/
structure Consumes (a : Attempt) (released actual : Meter → Numeral) (s s' : Store) : Prop where
  attempt : a ∈ s.attempts ∧ a.leaseToken.isSome = true ∧ a.finishedAt = none
  reads : a.reservedCost.Survives → ∀ route, a.route = some route →
    ∀ m ∈ route.meters, (released m).value = a.reservedCost.amount m
  cost : ∀ route, a.route = some route → ∀ m, m ∉ route.meters → actual m = 0
  jobs : s'.jobs = s.jobs
  tasks : s'.tasks = s.tasks
  leases : s'.originLeases = s.originLeases
  attempts : s.attempts.Changed (fun b => b.id = a.id) (fun b b' =>
    b'.jobId = b.jobId ∧ b'.route = b.route ∧ b'.provider = b.provider ∧
      b'.leaseToken = b.leaseToken ∧ b'.reservedCost = b.reservedCost ∧
      b'.finishedAt.isSome = true ∧ b'.actualCost = { native := actual }) s'.attempts
  usage : ∃ route jobId, a.route = some route ∧
    (jobId = a.jobId ∨ ∃ t ∈ s.tasks, t.id = a.taskId ∧ t.jobId = jobId) ∧
    s.usage.Changed (onLedger jobId route.provider route.meters)
      (Moves (fun m => -(released m).value) fun m => (actual m).value) s'.usage

/-! ## Labelled actions -/

/-- What the claims single out among the actions. -/
inductive Event
  | ordinary
  /-- A robots block of the task, counted on the job or not. -/
  | blocked (t : Task) (counted : Bool)
  /-- The task of a session fails with it, and its job does not count it. -/
  | uncounted (t : Task)
  /-- The lease of a cancelled job's task goes back to the queue. -/
  | requeued (t : Task)
  /-- A child is discovered in a job that has ended. -/
  | revived (jobId : Uuid)
  /-- A retry job is planted or recounted. -/
  | populated (jobId : Uuid)
  /-- A provider call of the job reserves an amount that reads as another one. -/
  | unread (jobId : Uuid)

/-- One action with its label. -/
inductive Action : Store → Event → Store → Prop
  | idle {s s' : Store} : Idles s s' → Action s .ordinary s'
  | submit {s s' : Store} (j : Job) (seed : Task) : Submits j seed s s' → Action s .ordinary s'
  | lease {s s' : Store} (j : Job) (t : Task) (token : Uuid) (bytes artifacts : ℤ)
      (resumed : Bool) : Leases j t token bytes artifacts resumed s s' → Action s .ordinary s'
  | settle {s s' : Store} (e : Event) (t : Task) (σ : TaskState) (downloaded artifacts : ℤ)
      (counted : Bool)
      (hblocked : σ = .blockedRobots → e = .blocked t counted)
      (hfailed : σ = .permanentFailed → counted = false → e = .uncounted t)
      (hqueued : σ.terminal = false →
        (∀ j ∈ s.jobs, j.id = t.jobId → j.cancelRequestedAt = none) ∨ e = .requeued t) :
      Settles t σ downloaded artifacts counted s s' → Action s e s'
  | drain {s s' : Store} (jobId : Uuid) (σ : TaskState) :
      Drains jobId σ s s' → Action s .ordinary s'
  | expire {s s' : Store} (e : Event) (t : Task) (σ : TaskState) (counted : Bool)
      (hfailed : counted = false → e = .uncounted t) :
      Expires t σ counted s s' → Action s e s'
  | flag {s s' : Store} (jobId : Uuid) (now : Time) :
      Flags jobId now s s' → Action s .ordinary s'
  | close {s s' : Store} (jobId : Uuid) (state : JobState) :
      Closes jobId state s s' → Action s .ordinary s'
  | discover {s s' : Store} (e : Event) (j : Job) (parent child : Task)
      (hrevived : j.state.terminal = true → e = .revived j.id) :
      Discovers j parent child s s' → Action s e s'
  | plant {s s' : Store} (child : Task) :
      Plants child s s' → Action s (.populated child.jobId) s'
  | recount {s s' : Store} (jobId : Uuid) (n : ℤ) :
      Recounts jobId n s s' → Action s (.populated jobId) s'
  | reserve {s s' : Store} (e : Event) (j : Job) (t : Task) (a : Attempt) (route : Route)
      (hunread : ¬a.reservedCost.Survives → e = .unread t.jobId) :
      Reserves j t a route s s' → Action s e s'
  | consume {s s' : Store} (a : Attempt) (released actual : Meter → Numeral) :
      Consumes a released actual s s' → Action s .ordinary s'

end Lifecycle

end CrawlTrove
