import CrawlTrove.Relational.Table
import CrawlTrove.Relational.Transaction
import CrawlTrove.Store.Config

/-!
# The crawl store

Rows, constraints and tables of the durable crawl schema
(`app/db/migrations`). Columns nothing modelled reads are left out: audit
texts, screenshots, and the routes and providers of worker attempts, which
are labels for display. Counters are integers as in the schema; a store that
breaks a primary key, a unique constraint or a ledger check has no value of
type `Store`.
-/

namespace CrawlTrove

open Relational Numerals

/-! ## States -/

inductive JobState
  | pending | running | completed | partially | failed | cancelled | timedOut
deriving DecidableEq, Repr

/-- The states `request_cancel` and `finalize_jobs` treat as finished. -/
def JobState.terminal : JobState → Bool
  | .pending | .running => false
  | .completed | .partially | .failed | .cancelled | .timedOut => true

inductive TaskState
  | pending | leased | retryWait | succeeded | httpError | blockedRobots
  | extractionFailed | permanentFailed | cancelled | waitingInput
deriving DecidableEq, Repr

/-- `_TERMINAL_TASK_STATES`. -/
def TaskState.terminal : TaskState → Bool
  | .succeeded | .httpError | .blockedRobots | .extractionFailed | .permanentFailed
  | .cancelled => true
  | .pending | .leased | .retryWait | .waitingInput => false

/-- The states the drains and cancels collect. -/
def TaskState.queued : TaskState → Bool
  | .pending | .retryWait | .waitingInput => true
  | _ => false

/-- The states counted as failures. -/
def TaskState.failed : TaskState → Bool
  | .httpError | .extractionFailed | .permanentFailed => true
  | _ => false

inductive CircuitState
  | closed | open' | halfOpen
deriving DecidableEq, Repr

inductive SessionState
  | starting | waiting | connected | resuming | closed | expired | cancelled
deriving DecidableEq, Repr

/-- Sessions that have not ended. -/
def SessionState.live : SessionState → Bool
  | .starting | .waiting | .connected | .resuming => true
  | .closed | .expired | .cancelled => false

inductive WorkerState
  | active | draining | revoked | incompatible
deriving DecidableEq, Repr

/-! ## Rows -/

/-- `crawl_jobs`. -/
structure Job where
  id : Uuid
  state : JobState
  config : CrawlConfig
  maxPages : ℤ
  maxBytes : ℤ
  maxArtifactBytes : ℤ
  discoveredCount : ℤ := 0
  terminalCount : ℤ := 0
  succeededCount : ℤ := 0
  failedCount : ℤ := 0
  blockedCount : ℤ := 0
  downloadedBytes : ℤ := 0
  reservedBytes : ℤ := 0
  artifactBytes : ℤ := 0
  reservedArtifactBytes : ℤ := 0
  browserPageCount : ℤ := 0
  nextDiscoverySeq : ℤ := 1
  terminalReason : Option String := none
  deadlineAt : Time
  cancelRequestedAt : Option Time := none
  startedAt : Option Time := none
  finishedAt : Option Time := none
  idempotencyKey : Option String := none
deriving DecidableEq

instance : Keyed Job where
  Key := Uuid × Option String
  key j := (j.id, j.idempotencyKey)
  clash a b := decide (a.1 = b.1) || (a.2.isSome && decide (a.2 = b.2))
  clash_refl := by simp
  clash_symm := by
    rintro ⟨i, k⟩ ⟨i', k'⟩
    cases k <;> cases k' <;> simp [eq_comm]

/-- `crawl_tasks`. -/
structure Task where
  id : Uuid
  jobId : Uuid
  originalUrl : String
  normalizedUrl : String
  urlHash : String
  originKey : String
  depth : ℤ
  discoverySeq : ℤ
  priority : ℤ := 0
  discoveredFromTaskId : Option Uuid := none
  state : TaskState
  availableAt : Time
  attemptCount : ℤ := 0
  maxAttempts : ℤ
  requiredCapabilities : List String
  byteBudgetReserved : ℤ := 0
  artifactBudgetReserved : ℤ := 0
  leaseOwner : Option String := none
  leaseToken : Option Uuid := none
  leaseExpiresAt : Option Time := none
  errorClass : Option String := none
  errorCode : Option String := none
  startedAt : Option Time := none
  finishedAt : Option Time := none
deriving DecidableEq

instance : Keyed Task where
  Key := Uuid × Uuid × String
  key t := (t.id, t.jobId, t.urlHash)
  clash a b := decide (a.1 = b.1) || decide (a.2 = b.2)
  clash_refl := by simp
  clash_symm a b := by simp [eq_comm]

/-- `crawl_results`. -/
structure CrawlResult where
  id : Uuid
  taskId : Uuid
  finalUrl : String
  markdown : Option String
  markdownRef : Option String
  downloadedBytes : ℤ
  artifactBytes : ℤ
deriving DecidableEq

instance : Keyed CrawlResult where
  Key := Uuid × Uuid
  key r := (r.id, r.taskId)
  clash a b := decide (a.1 = b.1) || decide (a.2 = b.2)
  clash_refl := by simp
  clash_symm a b := by simp [eq_comm]

/-- `crawl_origins`. -/
structure Origin where
  originKey : String
  nextRequestAt : Time
  cooldownUntil : Option Time := none
  consecutiveFailures : ℤ := 0
  circuitState : CircuitState := .closed
  circuitOpenUntil : Option Time := none
  robotsBody : Option String := none
  robotsExpiresAt : Option Time := none
deriving DecidableEq

instance : Keyed Origin where
  Key := String
  key o := o.originKey
  clash a b := decide (a = b)
  clash_refl := by simp
  clash_symm a b := by simp [eq_comm]

/-- `crawl_origin_leases`. -/
structure OriginLease where
  originKey : String
  taskId : Uuid
  leaseToken : Uuid
  expiresAt : Time
deriving DecidableEq

instance : Keyed OriginLease where
  Key := Uuid
  key l := l.taskId
  clash a b := decide (a = b)
  clash_refl := by simp
  clash_symm a b := by simp [eq_comm]

/-- A JSON cost object. A worker attempt reports bytes, a provider attempt
native meters; an absent key is `none`, an absent meter zero. -/
structure Cost where
  downloadedBytes : Option ℤ := none
  artifactBytes : Option ℤ := none
  native : Meter → Numeral := fun _ => 0

/-- What the cost object says of a meter. -/
def Cost.amount (c : Cost) (m : Meter) : ℚ := (c.native m).value

/-- Reading the cost object and writing it again changes no amount. -/
def Cost.Survives (c : Cost) : Prop := ∀ m, (c.native m).Survives

/-- `_loads`: the native meters of a cost column of an attempt on the route. -/
def Cost.loads (c : Cost) (r : Route) : PyValues where
  value m := if r.meters.contains m then some (c.native m).reread else none
  survives m n h := by
    simp only [Option.ite_none_right_eq_some, Option.some.injEq] at h
    exact Numeral.survives_of_reread h.2

/-- `acquisition_attempts`. A worker attempt has no route, provider or lease
token here; a provider attempt has all three. -/
structure Attempt where
  id : Uuid
  jobId : Uuid
  taskId : Uuid
  attemptNumber : ℤ
  route : Option Route := none
  provider : Option Provider := none
  workerId : Option String := none
  leaseToken : Option Uuid := none
  finishedAt : Option Time := none
  reservedCost : Cost := {}
  actualCost : Cost := {}
  outcome : Option String := none
  errorCode : Option String := none
  costEstimated : Bool := false

instance : Keyed Attempt where
  Key := Uuid × Uuid × ℤ
  key a := (a.id, a.taskId, a.attemptNumber)
  clash a b := decide (a.1 = b.1) || decide (a.2 = b.2)
  clash_refl := by simp
  clash_symm a b := by simp [eq_comm]

/-- `crawl_provider_usage`, with its `CHECK` constraints. -/
structure Usage where
  jobId : Uuid
  provider : Provider
  meter : Meter
  limitValue : ℚ
  reservedValue : ℚ
  consumedValue : ℚ
  limit_nonneg : 0 ≤ limitValue
  reserved_nonneg : 0 ≤ reservedValue
  consumed_nonneg : 0 ≤ consumedValue
  within_limit : reservedValue + consumedValue ≤ limitValue

instance : Keyed Usage where
  Key := Uuid × Provider × Meter
  key u := (u.jobId, u.provider, u.meter)
  clash a b := decide (a = b)
  clash_refl := by simp
  clash_symm a b := by simp [eq_comm]

/-- `live_sessions`. -/
structure LiveSession where
  id : Uuid
  taskId : Uuid
  backend : String
  workerId : Option String
  state : SessionState
  expiresAt : Time
deriving DecidableEq

instance : Keyed LiveSession where
  Key := Uuid × Uuid
  key s := (s.id, s.taskId)
  clash a b := decide (a.1 = b.1) || decide (a.2 = b.2)
  clash_refl := by simp
  clash_symm a b := by simp [eq_comm]

/-- `proxy_leases`. -/
structure ProxyLease where
  nodeId : String
  taskId : Uuid
  originKey : String
  leaseToken : Uuid
  expiresAt : Time
deriving DecidableEq

instance : Keyed ProxyLease where
  Key := Uuid
  key l := l.taskId
  clash a b := decide (a = b)
  clash_refl := by simp
  clash_symm a b := by simp [eq_comm]

/-- `workers`. -/
structure Worker where
  id : String
  dbRole : String
  capabilities : List String
  protocolVersion : ℤ
  state : WorkerState
  artifactBucket : String
  artifactPrefix : String
deriving DecidableEq

instance : Keyed Worker where
  Key := String × String
  key w := (w.id, w.dbRole)
  clash a b := decide (a.1 = b.1) || decide (a.2 = b.2)
  clash_refl := by simp
  clash_symm a b := by simp [eq_comm]

/-! ## The store -/

structure Store where
  jobs : Table Job := Table.empty
  tasks : Table Task := Table.empty
  results : Table CrawlResult := Table.empty
  origins : Table Origin := Table.empty
  originLeases : Table OriginLease := Table.empty
  attempts : Table Attempt := Table.empty
  usage : Table Usage := Table.empty
  sessions : Table LiveSession := Table.empty
  proxyLeases : Table ProxyLease := Table.empty
  workers : Table Worker := Table.empty

/-- Why a statement aborts its transaction. -/
inductive DbError
  | integrityViolation
  | checkViolation
  | invalidText
  | ambiguousColumn (name : String)
  | protocol (message : String)
  | invalidParameter (message : String)
  | insufficientPrivilege (message : String)
deriving DecidableEq, Repr

abbrev Tx (α : Type) := Transaction Store DbError α

/-- What a transaction sees besides the store: its start time, the uuids it
draws, and the rows `SKIP LOCKED` passes over because another open
transaction holds them. -/
structure Txn where
  now : Time
  uuid : ℕ → Uuid
  lockedTask : Uuid → Bool := fun _ => false
  lockedJob : Uuid → Bool := fun _ => false
  lockedAttempt : Uuid → Bool := fun _ => false

namespace Store

/-! ## Statements -/

def updateJobs (p : Job → Bool) (f : Job → Job) (s : Store)
    (hf : ∀ r, Keyed.key (f r) = Keyed.key r := by intro _; rfl) : Store :=
  { s with jobs := s.jobs.update p f hf }

def updateTasks (p : Task → Bool) (f : Task → Task) (s : Store)
    (hf : ∀ r, Keyed.key (f r) = Keyed.key r := by intro _; rfl) : Store :=
  { s with tasks := s.tasks.update p f hf }

def updateOrigins (p : Origin → Bool) (f : Origin → Origin) (s : Store)
    (hf : ∀ r, Keyed.key (f r) = Keyed.key r := by intro _; rfl) : Store :=
  { s with origins := s.origins.update p f hf }

def updateOriginLeases (p : OriginLease → Bool) (f : OriginLease → OriginLease) (s : Store)
    (hf : ∀ r, Keyed.key (f r) = Keyed.key r := by intro _; rfl) : Store :=
  { s with originLeases := s.originLeases.update p f hf }

def updateAttempts (p : Attempt → Bool) (f : Attempt → Attempt) (s : Store)
    (hf : ∀ r, Keyed.key (f r) = Keyed.key r := by intro _; rfl) : Store :=
  { s with attempts := s.attempts.update p f hf }

def updateSessions (p : LiveSession → Bool) (f : LiveSession → LiveSession) (s : Store)
    (hf : ∀ r, Keyed.key (f r) = Keyed.key r := by intro _; rfl) : Store :=
  { s with sessions := s.sessions.update p f hf }

def deleteOriginLeases (p : OriginLease → Bool) (s : Store) : Store :=
  { s with originLeases := s.originLeases.delete p }

def deleteProxyLeases (p : ProxyLease → Bool) (s : Store) : Store :=
  { s with proxyLeases := s.proxyLeases.delete p }

def insertJob (j : Job) (s : Store) : Option Store :=
  (s.jobs.insert? j).map fun T => { s with jobs := T }

/-- Also checks the reference to the job. -/
def insertTask (t : Task) (s : Store) : Option Store :=
  if s.jobs.any fun j => j.id = t.jobId then
    (s.tasks.insert? t).map fun T => { s with tasks := T }
  else none

def insertResult (r : CrawlResult) (s : Store) : Option Store :=
  (s.results.insert? r).map fun T => { s with results := T }

def insertOriginLease (l : OriginLease) (s : Store) : Option Store :=
  (s.originLeases.insert? l).map fun T => { s with originLeases := T }

def insertAttempt (a : Attempt) (s : Store) : Option Store :=
  (s.attempts.insert? a).map fun T => { s with attempts := T }

def insertUsage (u : Usage) (s : Store) : Option Store :=
  (s.usage.insert? u).map fun T => { s with usage := T }

def insertSession (l : LiveSession) (s : Store) : Option Store :=
  (s.sessions.insert? l).map fun T => { s with sessions := T }

/-- `INSERT INTO crawl_origins ... ON CONFLICT DO NOTHING`. -/
def ensureOrigin (now : Time) (originKey : String) (s : Store) : Store :=
  match s.origins.insert? { originKey, nextRequestAt := now } with
  | some T => { s with origins := T }
  | none => s

/-- A statement that changes no row leaves the store as it is. -/
theorem updateJobs_eq_self {p : Job → Bool} {f : Job → Job} {s : Store}
    (h : ∀ j ∈ s.jobs, p j = true → f j = j)
    (hf : ∀ r, Keyed.key (f r) = Keyed.key r := by intro _; rfl) : s.updateJobs p f hf = s := by
  unfold updateJobs
  rw [Table.update_eq_self h]

/-! ## Lookups -/

def job? (id : Uuid) (s : Store) : Option Job := s.jobs.find? fun j => j.id = id

def task? (id : Uuid) (s : Store) : Option Task := s.tasks.find? fun t => t.id = id

def origin? (originKey : String) (s : Store) : Option Origin :=
  s.origins.find? fun o => o.originKey = originKey

/-- Some task of the job is leased. -/
def hasLeased (jobId : Uuid) (s : Store) : Bool :=
  s.tasks.any fun t => t.jobId = jobId && t.state = .leased

/-- Some task of the job is not terminal. -/
def hasNonterminal (jobId : Uuid) (s : Store) : Bool :=
  s.tasks.any fun t => t.jobId = jobId && !t.state.terminal

end Store

/-! ## Rows are determined by their keys -/

theorem job_eq_of_id {T : Table Job} {a b : Job} (ha : a ∈ T) (hb : b ∈ T)
    (h : a.id = b.id) : a = b :=
  Table.eq_of_clash ha hb (by simp [Clashes, Keyed.clash, Keyed.key, h])

theorem task_eq_of_id {T : Table Task} {a b : Task} (ha : a ∈ T) (hb : b ∈ T)
    (h : a.id = b.id) : a = b :=
  Table.eq_of_clash ha hb (by simp [Clashes, Keyed.clash, Keyed.key, h])

/-- `crawl_tasks_job_url_unique`. -/
theorem task_eq_of_url {T : Table Task} {a b : Task} (ha : a ∈ T) (hb : b ∈ T)
    (hj : a.jobId = b.jobId) (hu : a.urlHash = b.urlHash) : a = b :=
  Table.eq_of_clash ha hb (by simp [Clashes, Keyed.clash, Keyed.key, hj, hu])

/-- `crawl_results_one_per_task`. -/
theorem result_eq_of_task {T : Table CrawlResult} {a b : CrawlResult} (ha : a ∈ T) (hb : b ∈ T)
    (h : a.taskId = b.taskId) : a = b :=
  Table.eq_of_clash ha hb (by simp [Clashes, Keyed.clash, Keyed.key, h])

theorem attempt_eq_of_id {T : Table Attempt} {a b : Attempt} (ha : a ∈ T) (hb : b ∈ T)
    (h : a.id = b.id) : a = b :=
  Table.eq_of_clash ha hb (by simp [Clashes, Keyed.clash, Keyed.key, h])

theorem attempt_eq_of_number {T : Table Attempt} {a b : Attempt} (ha : a ∈ T) (hb : b ∈ T)
    (ht : a.taskId = b.taskId) (hn : a.attemptNumber = b.attemptNumber) : a = b :=
  Table.eq_of_clash ha hb (by simp [Clashes, Keyed.clash, Keyed.key, ht, hn])

theorem usage_eq_of_key {T : Table Usage} {a b : Usage} (ha : a ∈ T) (hb : b ∈ T)
    (hj : a.jobId = b.jobId) (hp : a.provider = b.provider) (hm : a.meter = b.meter) : a = b :=
  Table.eq_of_clash ha hb (by simp [Clashes, Keyed.clash, Keyed.key, hj, hp, hm])

namespace Store

theorem job?_eq_some {s : Store} {id : Uuid} {j : Job} :
    s.job? id = some j ↔ j ∈ s.jobs ∧ j.id = id := by
  constructor
  · intro h
    simpa using Table.find?_eq_some h
  · rintro ⟨hj, rfl⟩
    exact Table.find?_eq_of_mem hj (by simp) fun x hx hid => job_eq_of_id hx hj (by simpa using hid)

theorem task?_eq_some {s : Store} {id : Uuid} {t : Task} :
    s.task? id = some t ↔ t ∈ s.tasks ∧ t.id = id := by
  constructor
  · intro h
    simpa using Table.find?_eq_some h
  · rintro ⟨ht, rfl⟩
    exact Table.find?_eq_of_mem ht (by simp) fun x hx hid => task_eq_of_id hx ht (by simpa using hid)

theorem select_task {s : Store} {t : Task} (ht : t ∈ s.tasks) :
    (s.tasks.select fun x => x.id = t.id) = [t] :=
  Table.select_eq_singleton ht (by simp) fun x hx h => task_eq_of_id hx ht (by simpa using h)

theorem hasLeased_eq_false {s : Store} {jobId : Uuid} :
    s.hasLeased jobId = false ↔ ∀ t ∈ s.tasks, t.jobId = jobId → t.state ≠ .leased := by
  simp [hasLeased, Table.any_eq_false]

theorem hasNonterminal_eq_false {s : Store} {jobId : Uuid} :
    s.hasNonterminal jobId = false ↔ ∀ t ∈ s.tasks, t.jobId = jobId → t.state.terminal = true := by
  simp [hasNonterminal, Table.any_eq_false]

end Store

theorem TaskState.not_terminal_of_queued {st : TaskState} (h : st.queued = true) :
    st.terminal = false := by cases st <;> simp_all [TaskState.queued, TaskState.terminal]

end CrawlTrove
