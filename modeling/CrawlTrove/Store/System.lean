import CrawlTrove.Store.WorkerApi

/-!
# Runs of the crawl store

Every client of the store (the HTTP service, local workers, enrolled remote
workers and the maintenance loop) acts through one transaction at a time.
`Call` lists these transactions with their arguments, `step` commits one, and
a run is a list of calls from a store without crawl rows. `retry_failures` is
three transactions: it reads its selection (`retrySelection`, which changes
nothing), submits a job (`submitJob`) and populates it (`populateRetries`);
other calls may run between them. `reconcile_job` is an operator's repair
command and no call.
-/

namespace CrawlTrove

open Relational Transaction Numerals

/-- The protocol functions an enrolled worker may call. -/
inductive RemoteCall
  | register (protocol : ℤ) (capabilities : List String)
  | drain
  | claim (capabilities : List String)
  | heartbeat (taskId token : Uuid)
  | reserveBrowserNavigation (taskId token : Uuid)
  | storeRobots (originKey body : String)
  | blockRobots (taskId token : Uuid) (code : String)
  | fail (taskId token : Uuid) (errorClass errorCode : String) (metadata : Metadata)
  | retry (taskId token : Uuid) (errorClass errorCode : String) (availableAt : Time)
      (metadata : Metadata)
  | release (taskId token : Uuid)
  | complete (taskId token : Uuid) (artifact : WorkerApi.ArtifactRef) (report : WorkerApi.Report)
  | startLiveSession (taskId token : Uuid) (backend workerId : String) (ttlSeconds : Option ℤ)
      (code : String)
  | waitForInput (taskId token : Uuid) (code : String)
  | touchLiveSession (id : Uuid)
  | closeLiveSession (id : Uuid) (reason : CloseReason)
  | resumeLiveSession (id : Uuid)
  | finishLiveSession (id : Uuid)
  | reserveProviderAttempt (taskId token : Uuid) (route : Route) (reserved : NativeValues)
  | finishProviderAttempt (attemptId token : Uuid) (outcome : Option String) (actual : NativeValues)
      (estimated : Bool)

/-- One transaction on the store. -/
inductive Call
  | submitJob (config : CrawlConfig) (idempotencyKey : Option String)
  | populateRetries (config : CrawlConfig) (jobId : Uuid) (rows : List String)
  | requestCancel (jobId : Uuid)
  | finalizeJobs
  | claimTask (workerId : String) (capabilities : List String)
  | heartbeat (taskId token : Uuid)
  | reserveBrowserNavigation (taskId token : Uuid)
  | completeTask (taskId token : Uuid) (result : TaskResult)
  | retryTask (taskId token : Uuid) (decision : FailureDecision) (availableAt : Time)
      (metadata : Metadata)
  | failTask (taskId token : Uuid) (decision : FailureDecision) (metadata : Metadata)
  | blockRobots (taskId token : Uuid) (code : String)
  | storeRobots (originKey body : String)
  | reapExpiredLeases
  | reserveAcquisitionAttempt (taskId token : Uuid) (route : Route) (reservedCost : PyValues)
  | finishAcquisitionAttempt (attemptId token : Uuid) (outcome : String)
      (actualCost : PyValues) (costEstimated : Bool)
  | waitForInputLocal (taskId token : Uuid) (backend workerId : String) (ttlSeconds : ℤ)
  | requestResume (id : Uuid)
  | touchSession (id : Uuid)
  | closeCompleted (id : Uuid)
  | closeSession (id : Uuid) (reason : CloseReason) (workerId : Option String)
  | expireDue
  | resumeLiveSession (id : Uuid) (workerId : String)
  | remote (role : String) (call : RemoteCall)
  /-- Enrolment by an operator and the proxy pool: the tables the crawl store
  only reads or clears. -/
  | environment (workers : Table Worker) (proxyLeases : Table ProxyLease)

/-- A transaction with its start time, uuids and locks. -/
structure Request where
  txn : Txn
  call : Call

/-- What a remote call does, and whether it was accepted. -/
def RemoteCall.body (x : Txn) (role : String) : RemoteCall → Tx Bool
  | .register protocol capabilities =>
      (fun _ => true) <$> WorkerApi.register role protocol capabilities
  | .drain => WorkerApi.drain role
  | .claim capabilities => Option.isSome <$> WorkerApi.claim x role capabilities
  | .heartbeat taskId token => WorkerApi.heartbeat x role taskId token
  | .reserveBrowserNavigation taskId token =>
      WorkerApi.reserveBrowserNavigation x role taskId token
  | .storeRobots originKey body => WorkerApi.storeRobots x role originKey body
  | .blockRobots taskId token code => WorkerApi.blockRobots x role taskId token code
  | .fail taskId token errorClass errorCode metadata =>
      WorkerApi.fail x role taskId token errorClass errorCode metadata
  | .retry taskId token errorClass errorCode availableAt metadata =>
      WorkerApi.retry x role taskId token errorClass errorCode availableAt metadata
  | .release taskId token => WorkerApi.release x role taskId token
  | .complete taskId token artifact report =>
      WorkerApi.complete x role taskId token artifact report
  | .startLiveSession taskId token backend workerId ttlSeconds code =>
      Option.isSome <$>
        WorkerApi.startLiveSession x role taskId token backend workerId ttlSeconds code
  | .waitForInput taskId token code => WorkerApi.waitForInput x role taskId token code
  | .touchLiveSession id => WorkerApi.touchLiveSession x role id
  | .closeLiveSession id reason => WorkerApi.closeLiveSession x role id reason
  | .resumeLiveSession id => Option.isSome <$> WorkerApi.resumeLiveSession x role id
  | .finishLiveSession id => WorkerApi.finishLiveSession role id
  | .reserveProviderAttempt taskId token route reserved =>
      Option.isSome <$> WorkerApi.reserveProviderAttempt x role taskId token route reserved
  | .finishProviderAttempt attemptId token outcome actual estimated =>
      WorkerApi.finishProviderAttempt x role attemptId token outcome actual estimated

/-- A statement on its own that always succeeds. -/
def accepted (f : Store → Store) : Tx Bool := do
  exec f
  return true

variable (url : UrlIdentity)

/-- What a call does, and whether it was accepted. -/
def Call.body (x : Txn) : Call → Tx Bool
  | .submitJob config key => (fun _ => true) <$> CrawlTrove.submitJob url x config key
  | .populateRetries config jobId rows =>
      (fun _ => true) <$> CrawlTrove.populateRetries url x config jobId rows
  | .requestCancel jobId => CrawlTrove.requestCancel x jobId
  | .finalizeJobs => accepted (CrawlTrove.finalizeJobs x)
  | .claimTask workerId capabilities =>
      Option.isSome <$> CrawlTrove.claimTask x workerId capabilities
  | .heartbeat taskId token => CrawlTrove.heartbeat x taskId token
  | .reserveBrowserNavigation taskId token =>
      CrawlTrove.reserveBrowserNavigation x taskId token
  | .completeTask taskId token result => CrawlTrove.completeTask url x taskId token result
  | .retryTask taskId token decision availableAt metadata =>
      CrawlTrove.retryTask x taskId token decision availableAt metadata
  | .failTask taskId token decision metadata =>
      CrawlTrove.failTask x taskId token decision metadata
  | .blockRobots taskId token code => CrawlTrove.blockRobots x taskId token code
  | .storeRobots originKey body => accepted (CrawlTrove.storeRobots x originKey body)
  | .reapExpiredLeases => (fun _ => true) <$> CrawlTrove.reapExpiredLeases x
  | .reserveAcquisitionAttempt taskId token route reservedCost =>
      Option.isSome <$> CrawlTrove.reserveAcquisitionAttempt x taskId token route reservedCost
  | .finishAcquisitionAttempt attemptId token outcome actualCost costEstimated =>
      CrawlTrove.finishAcquisitionAttempt x attemptId token outcome actualCost costEstimated
  | .waitForInputLocal taskId token backend workerId ttlSeconds =>
      (fun _ => true) <$>
        CrawlTrove.waitForInputLocal x taskId token backend workerId ttlSeconds
  | .requestResume id => accepted (CrawlTrove.requestResume x id)
  | .touchSession id => accepted (CrawlTrove.touchSession x id)
  | .closeCompleted id => accepted (CrawlTrove.closeCompleted id)
  | .closeSession id reason workerId => CrawlTrove.closeSession x id reason workerId
  | .expireDue => accepted (CrawlTrove.expireDue x)
  | .resumeLiveSession id workerId =>
      Option.isSome <$> CrawlTrove.resumeLiveSession x id workerId
  | .remote role call => call.body x role
  | .environment workers proxyLeases => accepted fun s => { s with workers, proxyLeases }

/-- The store after a request: a transaction that raises changes nothing. -/
def step (r : Request) (s : Store) : Store := (commit (r.call.body url r.txn) s).2

/-- What the caller sees: whether it was accepted, or the error. -/
def reply (r : Request) (s : Store) : Except DbError Bool := (commit (r.call.body url r.txn) s).1

/-- The caller is told that nothing was done. -/
def rejected (r : Request) (s : Store) : Prop := reply url r s ≠ .ok true

/-- The store a run of requests leads to. -/
abbrev run (s : Store) (requests : List Request) : Store := runFrom (step url) s requests

/-- No crawl has been submitted. -/
def Store.blank (s : Store) : Prop :=
  s.jobs = Table.empty ∧ s.tasks = Table.empty ∧ s.results = Table.empty ∧
    s.originLeases = Table.empty ∧ s.attempts = Table.empty ∧ s.usage = Table.empty ∧
    s.sessions = Table.empty

/-- The stores some run leads to. -/
def Reachable (s : Store) : Prop :=
  ∃ s₀ : Store, s₀.blank ∧ ∃ requests, run url s₀ requests = s

variable {url}

/-- A step either commits its body or leaves the store alone. -/
theorem step_cases (r : Request) (s : Store) :
    step url r s = s ∨ ∃ b, r.call.body url r.txn s = .ok (b, step url r s) := by
  unfold step commit
  cases h : r.call.body url r.txn s with
  | error e => exact Or.inl rfl
  | ok p => exact Or.inr ⟨p.1, rfl⟩

/-- A step commits what its body leaves behind and returns. -/
theorem reply_ok {r : Request} {s : Store} {b : Bool} (h : reply url r s = .ok b) :
    r.call.body url r.txn s = .ok (b, step url r s) := by
  unfold reply at h
  unfold step
  unfold commit at h ⊢
  cases hbody : r.call.body url r.txn s with
  | error e => simp [hbody] at h
  | ok p => simpa [hbody, Prod.ext_iff] using h

/-! ## A sample crawl -/

namespace Sample

/-- A crawl of one page, with the defaults of the form. -/
def config : CrawlConfig := { url := "https://example.com" }

/-- The identities of the two pages of the sample; both URLs are normal. -/
def identity : UrlIdentity where
  normalizeUrl url := url
  originKey _ := "https://example.com:443"
  sha256 url :=
    if url = "https://example.com" then
      "100680ad546ce6a577f42f52df33b4cfdca756859e664b8d7de329b150d09ce9"
    else if url = "https://example.com/a" then
      "2dce0a4c50441bfccfa9caf4b58c3cba6e06c420505dd829f0436de1aa44baac"
    else ""

/-- Job 1 with seed 2. -/
def submit : Request := ⟨{ now := 0, uuid := fun n => 1 + n }, .submitJob config none⟩

/-- The seed leased under token 11. -/
def claim : Request :=
  ⟨{ now := seconds 1, uuid := fun n => 11 + n }, .claimTask "local" ["http"]⟩

/-- The seed succeeds with two links, one of them twice. -/
def complete : Request :=
  ⟨{ now := seconds 2, uuid := fun n => 21 + n }, .completeTask 2 11
    { finalUrl := "https://example.com", markdown := "A page."
      discoveredUrls := ["https://example.com/a", "https://example.com", "https://example.com/a"] }⟩

/-- The seed is denied by robots instead. -/
def block : Request :=
  ⟨{ now := seconds 2, uuid := fun n => 21 + n }, .blockRobots 2 11 "robots_disallowed"⟩

def crawl : List Request := [submit, claim, complete]

/-- The seed succeeds without links. -/
def succeed : Request :=
  ⟨{ now := seconds 2, uuid := fun n => 21 + n }, .completeTask 2 11
    { finalUrl := "https://example.com", markdown := "A page." }⟩

/-- A mapping of nothing but credits. -/
def credits (n : Numeral) : NativeValues :=
  { value := fun m => if m = .credits then some (some n) else none }

/-- The crawl through Firecrawl, with five credits. -/
def submitScrape : Request :=
  ⟨submit.txn, .submitJob
    { config with
      acquisition :=
        { provider := .firecrawl
          creditBudgets := { firecrawl := some ⟨5, by decide +kernel⟩ } } } none⟩

/-- The crawl through Firecrawl, of whose credits one is reserved. -/
def scrape : List Request :=
  [submitScrape,
    ⟨claim.txn, .claimTask "local" ["firecrawl_scrape"]⟩,
    ⟨{ now := seconds 2, uuid := fun n => 21 + n }, .reserveAcquisitionAttempt 2 11
      .firecrawlScrape
      { credits 1 with
        survives := fun m n h => by
          simp only [credits, Option.ite_none_right_eq_some, Option.some.injEq] at h
          exact h.2 ▸ Numeral.survives_integer (by norm_num) }⟩]

/-- A remote worker with one capability is enrolled. -/
def enrolFor (capability : String) : Request :=
  ⟨{ now := 0, uuid := fun n => n }, .environment
    ⟨[{ id := "edge", dbRole := "worker_edge", capabilities := [capability], protocolVersion := 1
        state := .active, artifactBucket := "crawl", artifactPrefix := "edge/" }],
      List.pairwise_singleton ..⟩ Table.empty⟩

def enrol : Request := enrolFor "http"

/-- The seed leased to the remote worker under token 11. -/
def remoteClaim : Request :=
  ⟨{ now := seconds 1, uuid := fun n => 11 + n }, .remote "worker_edge" (.claim ["http"])⟩

def cancel : Request := ⟨{ now := seconds 2, uuid := fun n => 21 + n }, .requestCancel 1⟩

/-- A remote worker reserves credits, and the job is cancelled under its lease. -/
def abandon (n : Numeral) : List Request :=
  [enrolFor "firecrawl_scrape", submitScrape,
    ⟨remoteClaim.txn, .remote "worker_edge" (.claim ["firecrawl_scrape"])⟩,
    ⟨{ now := seconds 2, uuid := fun n => 21 + n }, .remote "worker_edge"
      (.reserveProviderAttempt 2 11 .firecrawlScrape (credits n))⟩,
    ⟨{ now := seconds 3, uuid := fun n => 31 + n }, .requestCancel 1⟩]

def release : Request :=
  ⟨{ now := seconds 3, uuid := fun n => 31 + n }, .remote "worker_edge" (.release 2 11)⟩

def finalize : Request := ⟨{ now := seconds 4, uuid := fun n => 41 + n }, .finalizeJobs⟩

end Sample

end CrawlTrove
