import CrawlTrove.Origins.Spacing

/-!
# The circuit of an origin

A failure streak of five opens an origin's circuit for 300 seconds. The
section follows the streak over a run (`streak`), shows that the row counts at
least as much (`Counts`), and that an open circuit stays open and refuses
claims for the whole window. A failure on a task's last attempt is the
exception: it never reaches the row.
-/

namespace CrawlTrove

open Relational Transaction

namespace Origins

/-! ## Rows in order -/

/-- The streak is no debt, and five failures leave no circuit closed. -/
structure CircuitOk (o : Origin) : Prop where
  nonneg : 0 ≤ o.consecutiveFailures
  tripped : 5 ≤ o.consecutiveFailures → o.circuitState ≠ .closed

def CircuitsOk (s : Store) : Prop := ∀ o ∈ s.origins, CircuitOk o

/-- Circuits that were in order still are. -/
def StaysOk (s s' : Store) : Prop := CircuitsOk s → CircuitsOk s'

instance : Std.Refl StaysOk := ⟨fun _ h => h⟩

instance : IsTrans Store StaysOk := ⟨fun _ _ _ h h' hs => h' (h hs)⟩

theorem staysOk_of_origins {s s' : Store} (h : s'.origins = s.origins) : StaysOk s s' := by
  intro hs
  unfold CircuitsOk
  rw [h]
  exact hs

theorem staysOk_of_keeps {α : Type} {m : Tx α} (h : Keeps m) : Steps StaysOk m :=
  fun _ _ _ hm => staysOk_of_origins (origins_of_around (h hm))

theorem staysOk_update {p : Origin → Bool} {f : Origin → Origin}
    {hf : ∀ r, Keyed.key (f r) = Keyed.key r} (h : ∀ o, CircuitOk o → CircuitOk (f o))
    (s : Store) : StaysOk s (s.updateOrigins p f hf) := by
  intro hs o ho
  obtain ⟨x, hx, hxo⟩ := (@Table.mem_update _ _ p f s.origins hf o).mp ho
  subst hxo
  split
  · exact h x (hs x hx)
  · exact hs x hx

theorem staysOk_ensureOrigin (now : Time) (key : String) (s : Store) :
    StaysOk s (s.ensureOrigin now key) := by
  intro hs
  unfold Store.ensureOrigin
  split
  · rename_i T hT
    intro o ho
    rcases (Table.mem_of_insert? hT).mp ho with hold | rfl
    · exact hs o hold
    · exact ⟨le_refl _, by simp⟩
  · exact hs

theorem CircuitOk.claimed {o : Origin} (h : CircuitOk o) (now : Time) :
    CircuitOk { o with nextRequestAt := now } :=
  ⟨h.nonneg, h.tripped⟩

theorem CircuitOk.halfOpened {o : Origin} (h : CircuitOk o) :
    CircuitOk { o with circuitState := .halfOpen } :=
  ⟨h.nonneg, by simp⟩

theorem CircuitOk.reset (o : Origin) :
    CircuitOk
      { o with
        consecutiveFailures := 0, circuitState := .closed, circuitOpenUntil := none
        cooldownUntil := none } :=
  ⟨le_refl _, by simp⟩

theorem failureWeight_nonneg (errorClass : String) : 0 ≤ failureWeight errorClass := by
  unfold failureWeight
  split <;> decide

theorem CircuitOk.failed {o : Origin} (h : CircuitOk o) (now : Time) (errorClass : String)
    (availableAt : Time) (cooldown : Option Time) :
    CircuitOk { o.recordFailure now errorClass availableAt with cooldownUntil := cooldown } := by
  have hweight := failureWeight_nonneg errorClass
  constructor
  · exact Int.add_nonneg h.nonneg hweight
  · intro (hfive : 5 ≤ o.consecutiveFailures + failureWeight errorClass)
    show (if 5 ≤ o.consecutiveFailures + failureWeight errorClass then CircuitState.open'
      else o.circuitState) ≠ .closed
    rw [if_pos hfive]
    simp

/-! ## Transactions keep the circuits in order -/

/-- An insert elsewhere, and what follows it. -/
theorem staysOk_attempt_bind {α : Type} {e : DbError} {f : Store → Option Store}
    {k : PUnit → Tx α} (h : ∀ s s', f s = some s' → around s' = around s)
    (hk : Steps StaysOk (k ⟨⟩)) : Steps StaysOk (attempt e f >>= k) :=
  Steps.bind (Steps.attempt fun s s' hs => staysOk_of_origins (origins_of_around (h s s' hs)))
    fun _ => hk

/-- A statement, and what follows it. -/
theorem staysOk_exec_bind {α : Type} {f : Store → Store} {k : PUnit → Tx α}
    (h : ∀ s, StaysOk s (f s)) (hk : Steps StaysOk (k ⟨⟩)) : Steps StaysOk (exec f >>= k) :=
  (Steps.exec h).bind fun _ => hk

theorem staysOk_paceOrigin (now : Time) (key : String) (delay : ℤ) (s : Store) :
    StaysOk s (paceOrigin now key delay s) :=
  staysOk_update (fun _ h => h.claimed _) s

theorem staysOk_halfOpen (key : String) (s : Store) : StaysOk s (halfOpen key s) :=
  staysOk_update (fun _ h => h.halfOpened) s

theorem staysOk_resetOrigin (key : String) (s : Store) : StaysOk s (resetOrigin key s) :=
  staysOk_update (fun o _ => .reset o) s

theorem staysOk_penalizeOrigin (now : Time) (key errorClass : String) (availableAt : Time)
    (s : Store) : StaysOk s (penalizeOrigin now key errorClass availableAt s) :=
  staysOk_update (fun _ h => h.failed now errorClass availableAt _) s

theorem staysOk_storeRobots (x : Txn) (key body : String) (s : Store) :
    StaysOk s (storeRobots x key body s) :=
  staysOk_update
    (f := fun o => { o with robotsBody := some body, robotsExpiresAt := some _ })
    (fun _ h => ⟨h.nonneg, h.tripped⟩) s

theorem grantLease_staysOk (x : Txn) (workerId : String) (task : Task) (job : Job)
    (bytes artifacts : ℤ) : Steps StaysOk (grantLease x workerId task job bytes artifacts) :=
  staysOk_exec_bind (fun _ => staysOk_of_origins rfl) <|
    staysOk_exec_bind (fun _ => staysOk_of_origins rfl) <|
      staysOk_exec_bind (fun _ => staysOk_of_origins rfl) <|
        staysOk_attempt_bind insertAttempt_around <|
          staysOk_attempt_bind insertOriginLease_around <|
            staysOk_exec_bind (staysOk_paceOrigin _ _ _) <| Steps.pure _

theorem claimPaced_staysOk (x : Txn) (workerId : String) (task : Task) (job : Job)
    (origin : Origin) : Steps StaysOk (claimPaced x workerId task job origin) := by
  unfold claimPaced
  refine Steps.ite ?_ (Steps.read_bind fun _ => Steps.ite (Steps.pure _) (Steps.ite ?_ ?_))
  · exact staysOk_exec_bind (fun _ => staysOk_of_origins rfl) <| Steps.pure _
  · exact staysOk_exec_bind
      (fun _ => staysOk_of_origins (origins_of_around (drainUnleased_around ..))) <| Steps.pure _
  · exact (grantLease_staysOk ..).map

theorem claimLocked_staysOk (x : Txn) (workerId : String) (task : Task) (job : Job) :
    Steps StaysOk (claimLocked x workerId task job) := by
  unfold claimLocked
  refine staysOk_exec_bind (staysOk_ensureOrigin _ _) (Steps.read_bind fun found => ?_)
  cases found with
  | none => exact Steps.pure _
  | some origin =>
      dsimp only
      cases origin.blockedUntil.filter (x.now < ·) with
      | some blockedUntil =>
          exact staysOk_exec_bind (fun _ => staysOk_of_origins rfl) <| Steps.pure _
      | none =>
          refine staysOk_exec_bind (fun s => ?_) (claimPaced_staysOk ..)
          split
          · exact staysOk_halfOpen _ _
          · exact refl_of StaysOk s

theorem claimTask_staysOk (x : Txn) (workerId : String) (capabilities : List String) :
    Steps StaysOk (claimTask x workerId capabilities) := by
  unfold claimTask
  refine Steps.read_bind fun found => ?_
  cases found with
  | none => exact Steps.pure _
  | some task =>
      refine Steps.read_bind fun found => ?_
      cases found with
      | none => exact Steps.pure _
      | some job => exact Steps.ite (Steps.pure _) (claimLocked_staysOk ..)

theorem remote_grantLease_staysOk (x : Txn) (worker : Worker) (task : Task) (job : Job)
    (bytes artifacts : ℤ) :
    Steps StaysOk (WorkerApi.grantLease x worker task job bytes artifacts) :=
  staysOk_exec_bind (fun _ => staysOk_of_origins rfl) <|
    staysOk_exec_bind (fun _ => staysOk_of_origins rfl) <|
      staysOk_exec_bind (fun _ => staysOk_of_origins rfl) <|
        staysOk_attempt_bind insertOriginLease_around <|
          staysOk_exec_bind (staysOk_paceOrigin _ _ _) <|
            staysOk_attempt_bind insertAttempt_around <| Steps.pure _

theorem remote_claimLocked_staysOk (x : Txn) (worker : Worker) (task : Task) (job : Job)
    (origin : Origin) : Steps StaysOk (WorkerApi.claimLocked x worker task job origin) := by
  unfold WorkerApi.claimLocked
  dsimp only
  generalize (if origin.circuitState = .open' then _ else none : Option Time) = blocked
  cases blocked with
  | some blockedUntil =>
      exact staysOk_exec_bind (fun _ => staysOk_of_origins rfl) <| Steps.pure _
  | none =>
      refine Steps.ite (Steps.raise _) ?_
      unfold WorkerApi.claimPaced
      refine Steps.ite (Steps.pure _) (Steps.read_bind fun _ => Steps.ite (Steps.pure _) ?_)
      exact Steps.ite (Steps.pure _) (remote_grantLease_staysOk ..).map

theorem remote_claim_staysOk (x : Txn) (role : String) (capabilities : List String) :
    Steps StaysOk (WorkerApi.claim x role capabilities) := by
  unfold WorkerApi.claim
  refine (staysOk_of_keeps (identity_keeps ..)).bind fun worker => Steps.ite (Steps.raise _) ?_
  refine Steps.read_bind fun found => ?_
  cases found with
  | none => exact Steps.pure _
  | some task =>
      refine Steps.read_bind fun found => ?_
      cases found with
      | none => exact Steps.pure _
      | some job =>
          refine Steps.read_bind fun found => ?_
          cases found with
          | none => exact Steps.pure _
          | some origin => exact remote_claimLocked_staysOk ..

theorem completeTask_staysOk (url : UrlIdentity) (x : Txn) (taskId token : Uuid)
    (result : TaskResult) : Steps StaysOk (completeTask url x taskId token result) := by
  unfold completeTask
  refine (staysOk_of_keeps (activeLease_keeps ..)).bind fun found => ?_
  cases found with
  | none => exact Steps.pure _
  | some f =>
      refine Steps.ite ?_ (Steps.read_bind fun _ => Steps.ite (Steps.pure _) ?_)
      · exact staysOk_exec_bind
          (fun _ => staysOk_of_origins (origins_of_around (rejectOverBudget_around ..))) <|
            Steps.pure _
      · refine staysOk_attempt_bind insertResult_around ?_
        refine (staysOk_of_keeps (insertDiscovered_keeps ..)).bind fun _ => ?_
        refine staysOk_exec_bind (fun s => ?_) (Steps.pure _)
        intro hs
        exact staysOk_resetOrigin f.task.originKey _ (staysOk_of_origins rfl hs)

theorem complete_staysOk (x : Txn) (role : String) (taskId token : Uuid)
    (artifact : WorkerApi.ArtifactRef) (report : WorkerApi.Report) :
    Steps StaysOk (WorkerApi.complete x role taskId token artifact report) := by
  unfold WorkerApi.complete
  refine (staysOk_of_keeps (identity_keeps ..)).bind fun worker => Steps.read_bind fun found => ?_
  cases found with
  | none => exact Steps.pure _
  | some f =>
      refine (staysOk_of_keeps (castInt_keeps ..)).bind fun size => ?_
      refine (staysOk_of_keeps (castInt_keeps ..)).bind fun cast => ?_
      refine Steps.ite (Steps.pure _) (Steps.ite (Steps.raise _) ?_)
      refine Steps.read_bind fun _ => Steps.ite (Steps.pure _) ?_
      refine staysOk_attempt_bind insertResult_around ?_
      refine staysOk_exec_bind (fun s => ?_) ?_
      · intro hs
        exact staysOk_resetOrigin f.task.originKey _ (staysOk_of_origins rfl hs)
      · exact (staysOk_of_keeps (remote_insertLinks_keeps ..)).bind fun _ => Steps.pure _

theorem retryTask_staysOk (x : Txn) (taskId token : Uuid) (decision : FailureDecision)
    (availableAt : Time) (metadata : Metadata) :
    Steps StaysOk (retryTask x taskId token decision availableAt metadata) := by
  unfold retryTask
  refine (staysOk_of_keeps (activeLease_keeps ..)).bind fun found => ?_
  cases found with
  | none => exact Steps.pure _
  | some f =>
      refine Steps.ite ?_ ?_
      · exact staysOk_exec_bind
          (fun _ => staysOk_of_origins (origins_of_around (failPermanently_around ..))) <|
            Steps.pure _
      · refine staysOk_exec_bind (fun s => ?_) (Steps.pure _)
        intro hs
        refine staysOk_penalizeOrigin x.now f.task.originKey decision.errorClass availableAt _ ?_
        exact staysOk_of_origins (origins_of_around (chargeDownload_around ..)) hs

theorem retry_staysOk (x : Txn) (role : String) (taskId token : Uuid)
    (errorClass errorCode : String) (availableAt : Time) (metadata : Metadata) :
    Steps StaysOk
      (WorkerApi.retry x role taskId token errorClass errorCode availableAt metadata) := by
  unfold WorkerApi.retry
  refine (staysOk_of_keeps (identity_keeps ..)).bind fun worker => Steps.read_bind fun found => ?_
  cases found with
  | none => exact Steps.pure _
  | some task =>
      refine (staysOk_of_keeps (castInt_keeps ..)).bind fun reported => Steps.ite ?_ ?_
      · exact staysOk_exec_bind (fun _ => staysOk_of_origins rfl) <| Steps.pure _
      · refine staysOk_exec_bind (fun s => ?_) (Steps.pure _)
        intro hs
        refine @staysOk_update (fun o => o.originKey = task.originKey)
          (Origin.recordFailure x.now errorClass availableAt) (fun _ => rfl) (fun o h => ?_) _
          (staysOk_of_origins rfl hs)
        exact h.failed x.now errorClass availableAt o.cooldownUntil

theorem submitJob_staysOk (url : UrlIdentity) (x : Txn) (config : CrawlConfig)
    (key : Option String) : Steps StaysOk (submitJob url x config key) := by
  unfold submitJob
  refine Steps.read_bind fun found => ?_
  cases found with
  | some existing => exact Steps.pure _
  | none =>
      refine staysOk_attempt_bind insertJob_around ?_
      refine (staysOk_of_keeps (insertUsageRows_keeps ..)).bind fun _ => ?_
      refine staysOk_attempt_bind insertTask_around ?_
      exact staysOk_exec_bind (staysOk_ensureOrigin _ _) <| Steps.pure _

theorem insertRetries_staysOk (url : UrlIdentity) (x : Txn) (config : CrawlConfig) (jobId : Uuid)
    (rows : List String) (draw : ℕ) (sequence : ℤ) :
    Steps StaysOk (insertRetries url x config jobId rows draw sequence) := by
  induction rows generalizing draw sequence with
  | nil => exact Steps.pure _
  | cons original rows ih =>
      exact staysOk_exec_bind (staysOk_ensureOrigin _ _) <|
        (staysOk_of_keeps (insertTaskOnce_keeps ..)).bind fun _ => ih ..

theorem storeRobots_staysOk (x : Txn) (role key body : String) :
    Steps StaysOk (WorkerApi.storeRobots x role key body) := by
  unfold WorkerApi.storeRobots
  refine (staysOk_of_keeps (identity_keeps ..)).bind fun worker => Steps.read_bind fun held => ?_
  refine Steps.ite ?_ (Steps.pure _)
  exact Steps.read_bind fun _ => staysOk_exec_bind (staysOk_storeRobots _ _ _) <| Steps.pure _

variable {url : UrlIdentity}

theorem remote_body_staysOk (x : Txn) (role : String) (call : RemoteCall) :
    Steps StaysOk (call.body x role) := by
  cases call with
  | register protocol capabilities =>
      exact Steps.map fun _ _ _ h => staysOk_of_origins (register_frame _ _ _ h)
  | drain => exact fun _ _ _ h => staysOk_of_origins (drain_frame _ h)
  | claim capabilities => exact (remote_claim_staysOk ..).map
  | storeRobots key body => exact storeRobots_staysOk ..
  | complete taskId token artifact report => exact complete_staysOk ..
  | retry taskId token errorClass errorCode availableAt metadata => exact retry_staysOk ..
  | heartbeat taskId token => exact staysOk_of_keeps (remote_heartbeat_keeps ..)
  | reserveBrowserNavigation taskId token =>
      exact staysOk_of_keeps (remote_reserveBrowserNavigation_keeps ..)
  | blockRobots taskId token code => exact staysOk_of_keeps (remote_blockRobots_keeps ..)
  | fail taskId token errorClass errorCode metadata => exact staysOk_of_keeps (fail_keeps ..)
  | release taskId token => exact staysOk_of_keeps (release_keeps ..)
  | startLiveSession taskId token backend workerId ttlSeconds code =>
      exact staysOk_of_keeps (startLiveSession_keeps ..).map
  | waitForInput taskId token code => exact staysOk_of_keeps (waitForInput_keeps ..)
  | touchLiveSession id => exact staysOk_of_keeps (touchLiveSession_keeps ..)
  | closeLiveSession id reason => exact staysOk_of_keeps (closeLiveSession_keeps ..)
  | resumeLiveSession id => exact staysOk_of_keeps (remote_resumeLiveSession_keeps ..).map
  | finishLiveSession id => exact staysOk_of_keeps (finishLiveSession_keeps ..)
  | reserveProviderAttempt taskId token route reserved =>
      exact staysOk_of_keeps (reserveProviderAttempt_keeps ..).map
  | finishProviderAttempt attemptId token outcome actual estimated =>
      exact staysOk_of_keeps (finishProviderAttempt_keeps ..)

theorem body_staysOk (x : Txn) (call : Call) : Steps StaysOk (call.body url x) := by
  have hplain {f : Store → Store} (h : ∀ s, StaysOk s (f s)) : Steps StaysOk (accepted f) :=
    staysOk_exec_bind h <| Steps.pure _
  have hkeep {f : Store → Store} (h : ∀ s, around (f s) = around s) : Steps StaysOk (accepted f) :=
    hplain fun s => staysOk_of_origins (origins_of_around (h s))
  cases call with
  | submitJob config key => exact (submitJob_staysOk ..).map
  | populateRetries config jobId rows =>
      refine Steps.map ((insertRetries_staysOk ..).bind fun sequence => ?_)
      exact staysOk_exec_bind (fun _ => staysOk_of_origins rfl) <| Steps.pure _
  | environment workers proxyLeases => exact hplain fun _ => staysOk_of_origins rfl
  | storeRobots key body => exact hplain (staysOk_storeRobots x key body)
  | claimTask workerId capabilities => exact (claimTask_staysOk ..).map
  | completeTask taskId token result => exact completeTask_staysOk ..
  | retryTask taskId token decision availableAt metadata => exact retryTask_staysOk ..
  | remote role call => exact remote_body_staysOk ..
  | requestCancel jobId => exact staysOk_of_keeps (requestCancel_keeps ..)
  | finalizeJobs => exact hkeep (finalizeJobs_around x)
  | heartbeat taskId token => exact staysOk_of_keeps (heartbeat_keeps ..)
  | reserveBrowserNavigation taskId token =>
      exact staysOk_of_keeps (reserveBrowserNavigation_keeps ..)
  | failTask taskId token decision metadata => exact staysOk_of_keeps (failTask_keeps ..)
  | blockRobots taskId token code => exact staysOk_of_keeps (blockRobots_keeps ..)
  | reapExpiredLeases => exact staysOk_of_keeps (reapExpiredLeases_keeps _).map
  | reserveAcquisitionAttempt taskId token route reservedCost =>
      exact staysOk_of_keeps (reserveAcquisitionAttempt_keeps ..).map
  | finishAcquisitionAttempt attemptId token outcome actualCost costEstimated =>
      exact staysOk_of_keeps (finishAcquisitionAttempt_keeps ..)
  | waitForInputLocal taskId token backend workerId ttlSeconds =>
      exact staysOk_of_keeps (waitForInputLocal_keeps ..).map
  | requestResume id => exact hkeep fun _ => rfl
  | touchSession id => exact hkeep fun _ => rfl
  | closeCompleted id => exact hkeep fun _ => rfl
  | closeSession id reason workerId => exact staysOk_of_keeps (closeSession_keeps ..)
  | expireDue => exact hkeep (expireDue_around x)
  | resumeLiveSession id workerId => exact staysOk_of_keeps (resumeLiveSession_keeps ..).map

/-- Every run keeps the circuits in order. -/
theorem run_circuitsOk {s : Store} (requests : List Request) (h : CircuitsOk s) :
    CircuitsOk (run url s requests) :=
  runFrom_invariant (P := fun _ _ => True)
    (fun r s _ hs => (body_staysOk r.txn r.call).committed s hs)
    (stepsMeet_of_forall fun _ _ _ => trivial) h

/-! ## The streak -/

variable (url)

/-- The report a request brings and the task it is about, once accepted. -/
def reported (r : Request) (s : Store) : Option (Task × Touch) :=
  match reply url r s, report r.call with
  | .ok true, some (taskId, token, t) => (leaseholder s taskId token).map (·, t)
  | _, _ => none

/-- The streak after a request: transport and HTTP failures of the origin's
tasks add to it, a success ends it. -/
def nextStreak (key : String) (r : Request) (s : Store) (n : ℤ) : ℤ :=
  match reported url r s with
  | some (task, .failed errorClass _ _) =>
      if task.originKey = key then n + failureWeight errorClass else n
  | some (task, .succeeded) => if task.originKey = key then 0 else n
  | _ => n

/-- The accepted transport and HTTP failures on an origin since the last
success, whichever jobs, workers and attempts they belong to. -/
def streakFrom (key : String) (s : Store) : List Request → ℤ → ℤ
  | [], n => n
  | r :: requests, n => streakFrom key (step url r s) requests (nextStreak url key r s n)

def streak (key : String) (s : Store) (requests : List Request) : ℤ :=
  streakFrom url key s requests 0

/-- An accepted retryable failure of one of the origin's tasks. -/
def fails (key : String) (r : Request) (s : Store) : Bool :=
  match reported url r s with
  | some (task, .failed _ _ _) => task.originKey = key
  | _ => false

/-- A failure the row never sees: it is the task's last attempt, and counts or
belongs to a probe. -/
def losesFailure (key : String) (r : Request) (s : Store) : Bool :=
  match reported url r s with
  | some (task, .failed errorClass _ _) =>
      task.originKey = key && decide (task.maxAttempts ≤ task.attemptCount) &&
        (failureWeight errorClass = 1 ||
          s.origins.any fun o => o.originKey = key && o.circuitState ≠ .closed)
  | _ => false

/-- A page of the origin succeeds while its circuit is open: only a resumed
session can. -/
def closesEarly (key : String) (r : Request) (s : Store) : Bool :=
  match reported url r s with
  | some (task, .succeeded) =>
      task.originKey = key && s.origins.any fun o => o.originKey = key && o.circuitState = .open'
  | _ => false

variable {url}

theorem granted_of_report {r : Request} {s : Store} (h : report r.call ≠ none) :
    granted r s = none := by
  obtain ⟨x, call⟩ := r
  cases call with
  | claimTask workerId capabilities => exact absurd rfl h
  | remote role call =>
      cases call with
      | claim capabilities => exact absurd rfl h
      | _ => rfl
  | _ => rfl

/-- An accepted report touches its origin if it lands. -/
theorem touch_of_reported {r : Request} {s : Store} {task : Task} {t : Touch}
    (h : reported url r s = some (task, t)) :
    touch url r s = if t.lands task = true then some (task.originKey, t) else none := by
  unfold reported at h
  split at h
  · rename_i taskId token t' hreply hreport
    obtain ⟨u, hu, heq⟩ := Option.map_eq_some_iff.mp h
    obtain ⟨rfl, rfl⟩ := Prod.mk.inj heq
    have hclaim : granted r s = none := granted_of_report (by simp [hreport])
    simp [touch, hclaim, hreply, hreport, hu]
  · cases h

/-- What touches an origin is a granted claim or a report that lands. -/
theorem reported_of_touch {r : Request} {s : Store} {key : String} {t : Touch}
    (h : touch url r s = some (key, t)) (hplain : ∀ delay, t ≠ .claimed delay) :
    ∃ task, reported url r s = some (task, t) ∧ task.originKey = key := by
  unfold touch at h
  split at h
  · simp only [Option.some.injEq, Prod.mk.injEq] at h
    exact absurd h.2.symm (hplain _)
  · split at h
    · rename_i taskId token t' hreply hreport
      obtain ⟨task, htask, h⟩ := Option.bind_eq_some_iff.mp h
      split at h
      · simp only [Option.some.injEq, Prod.mk.injEq] at h
        obtain ⟨hkey, rfl⟩ := h
        exact ⟨task, by simp [reported, hreply, hreport, htask], hkey⟩
      · cases h
    · cases h

theorem failureWeight_cases (errorClass : String) :
    failureWeight errorClass = 0 ∨ failureWeight errorClass = 1 := by
  unfold failureWeight
  split
  · exact Or.inr rfl
  · exact Or.inl rfl

theorem fails_eq_true {key : String} {r : Request} {s : Store} :
    fails url key r s = true ↔ ∃ task errorClass availableAt cools,
      reported url r s = some (task, .failed errorClass availableAt cools) ∧
        task.originKey = key := by
  unfold fails
  split
  · rename_i task errorClass availableAt cools hreport
    constructor
    · intro hkey
      exact ⟨task, errorClass, availableAt, cools, hreport, of_decide_eq_true hkey⟩
    · rintro ⟨task', _, _, _, hreport', hkey⟩
      obtain ⟨rfl, -⟩ := Prod.mk.inj (Option.some.inj (hreport.symm.trans hreport'))
      exact decide_eq_true hkey
  · rename_i hother
    constructor
    · intro h
      cases h
    · rintro ⟨task, errorClass, availableAt, cools, hreport, -⟩
      exact absurd hreport (hother task errorClass availableAt cools)

/-- A failure with attempts left is not lost. -/
theorem lands_of_kept {key errorClass : String} {r : Request} {s : Store} {task : Task}
    {availableAt : Time} {cools : Bool} (hkept : losesFailure url key r s = false)
    (hreport : reported url r s = some (task, .failed errorClass availableAt cools))
    (hkey : task.originKey = key) (hcounts : failureWeight errorClass = 1 ∨
      ∃ o ∈ s.origins, o.originKey = key ∧ o.circuitState ≠ .closed) :
    touch url r s = some (key, .failed errorClass availableAt cools) := by
  have hleft : task.attemptCount < task.maxAttempts := by
    by_contra hlast
    refine absurd hkept (Bool.not_eq_false _ ▸ ?_)
    simp only [losesFailure, hreport, hkey, Bool.and_eq_true, Bool.or_eq_true, decide_eq_true_eq,
      Table.any_eq_true, true_and]
    exact ⟨not_lt.mp hlast, hcounts⟩
  rw [touch_of_reported hreport, if_pos (by simpa [Touch.lands] using hleft), hkey]

/-- The row counts at least the streak. -/
def Counts (key : String) (n : ℤ) (s : Store) : Prop :=
  ∃ o ∈ s.origins, o.originKey = key ∧ n ≤ o.consecutiveFailures

/-- A row no report reaches is not behind the streak either. -/
theorem nextStreak_le_of_missed {key : String} {r : Request} {s : Store} {n : ℤ}
    (hkept : losesFailure url key r s = false) (hmissed : ∀ t, touch url r s ≠ some (key, t)) :
    nextStreak url key r s n ≤ n := by
  unfold nextStreak
  split
  · rename_i task errorClass availableAt cools hreport
    split
    · rename_i hkey
      rcases failureWeight_cases errorClass with hzero | hone
      · omega
      · exact absurd (lands_of_kept hkept hreport hkey (Or.inl hone)) (hmissed _)
    · exact le_refl _
  · rename_i task hreport
    split
    · rename_i hkey
      have htouch := touch_of_reported hreport
      simp only [Touch.lands, if_true, hkey] at htouch
      exact absurd htouch (hmissed _)
    · exact le_refl _
  · exact le_refl _

/-- One step of the streak, on the row. -/
theorem step_counts {key : String} {r : Request} {s : Store} {n : ℤ}
    (hkept : losesFailure url key r s = false) (h : Counts key n s) :
    Counts key (nextStreak url key r s n) (step url r s) := by
  obtain ⟨o, ho, rfl, hn⟩ := h
  obtain ⟨o', ho', hkey, hstep⟩ := @step_origins url r s o ho
  refine ⟨o', ho', hkey, ?_⟩
  cases hstep with
  | untouched _ other same =>
      have hsame : o'.consecutiveFailures = o.consecutiveFailures :=
        eq_of_pace same Origin.consecutiveFailures fun _ => rfl
      rw [hsame]
      exact le_trans (nextStreak_le_of_missed hkept other) hn
  | probed other isOpen past => exact le_trans (nextStreak_le_of_missed hkept other) hn
  | touched t eq admits =>
      cases t with
      | claimed delay =>
          obtain ⟨g, hg, -, -⟩ := granted_of_touch eq
          have hnone : reported url r s = none := by
            cases hreport : report r.call with
            | none => simp [reported, hreport]
            | some p =>
                have hfree := @granted_of_report r s (by simp [hreport])
                rw [hg] at hfree
                cases hfree
          show nextStreak url o.originKey r s n ≤ o.consecutiveFailures
          simp only [nextStreak, hnone]
          exact hn
      | succeeded =>
          obtain ⟨task, hreport, htask⟩ := reported_of_touch eq (by simp)
          show nextStreak url o.originKey r s n ≤ 0
          simp only [nextStreak, hreport, htask, if_true]
          exact le_refl _
      | failed errorClass availableAt cools =>
          obtain ⟨task, hreport, htask⟩ := reported_of_touch eq (by simp)
          show nextStreak url o.originKey r s n ≤
            o.consecutiveFailures + failureWeight errorClass
          simp only [nextStreak, hreport, htask, if_true]
          omega

theorem run_counts {key : String} {s : Store} {requests : List Request} {n : ℤ}
    (hkept : StepsMeet (step url) (fun r s => losesFailure url key r s = false) s requests)
    (h : Counts key n s) : Counts key (streakFrom url key s requests n) (run url s requests) := by
  induction requests generalizing s n with
  | nil => exact h
  | cons r requests ih => exact ih hkept.2 (step_counts hkept.1 h)

/-! ## The open circuit -/

/-- The circuit is open at least until this time. -/
def OpenUntil (key : String) (due : Time) (s : Store) : Prop :=
  ∃ o ∈ s.origins, o.originKey = key ∧ o.circuitState = .open' ∧
    ∃ u, o.circuitOpenUntil = some u ∧ due ≤ u

theorem blockedUntil_open {o : Origin} {u : Time} (hopen : o.circuitState = .open')
    (hu : o.circuitOpenUntil = some u) : ∃ t, o.blockedUntil = some t ∧ u ≤ t := by
  unfold Origin.blockedUntil
  rw [if_pos hopen, hu]
  cases o.cooldownUntil with
  | none => exact ⟨u, rfl, le_refl _⟩
  | some c => exact ⟨max c u, rfl, le_max_right ..⟩

theorem streakFrom_append {key : String} {s : Store} {requests more : List Request} {n : ℤ} :
    streakFrom url key s (requests ++ more) n =
      streakFrom url key (run url s requests) more (streakFrom url key s requests n) := by
  induction requests generalizing s n with
  | nil => rfl
  | cons r requests ih => exact ih

/-- The fifth failure opens the circuit, and so does any failure after it. -/
theorem opens_of_fails {key : String} {r : Request} {s : Store} {n : ℤ}
    (hkept : losesFailure url key r s = false) (hs : CircuitsOk s) (h : Counts key n s)
    (hfails : fails url key r s = true) (hfive : 5 ≤ nextStreak url key r s n) :
    OpenUntil key (r.txn.now + seconds 300) (step url r s) := by
  obtain ⟨o, ho, rfl, hn⟩ := h
  obtain ⟨task, errorClass, availableAt, cools, hreport, htask⟩ := fails_eq_true.mp hfails
  have hcount : 5 ≤ n + failureWeight errorClass := by
    simpa only [nextStreak, hreport, htask, if_true] using hfive
  have htouch : touch url r s = some (o.originKey, .failed errorClass availableAt cools) := by
    refine lands_of_kept hkept hreport htask ?_
    rcases failureWeight_cases errorClass with hzero | hone
    · exact Or.inr ⟨o, ho, rfl, (hs o ho).tripped (by omega)⟩
    · exact Or.inl hone
  obtain ⟨o', ho', hkey, hstep⟩ := @step_origins url r s o ho
  cases hstep with
  | untouched _ other same => exact absurd htouch (other _)
  | probed other isOpen past => exact absurd htouch (other _)
  | touched t eq admits =>
      obtain rfl : t = .failed errorClass availableAt cools := by
        simpa using eq.symm.trans htouch
      have htrip : 5 ≤ o.consecutiveFailures + failureWeight errorClass := by omega
      exact ⟨_, ho', hkey, if_pos htrip, _, if_pos htrip, le_refl _⟩

/-- Inside the window nothing but a resumed session's success closes it. -/
theorem step_openUntil {key : String} {due : Time} {r : Request} {s : Store}
    (hopen : closesEarly url key r s = false) (hwindow : due ≤ r.txn.now + seconds 300)
    (hnow : r.txn.now < due) (h : OpenUntil key due s) : OpenUntil key due (step url r s) := by
  obtain ⟨o, ho, rfl, hstate, u, hu, hdue⟩ := h
  obtain ⟨t, ht, hut⟩ := blockedUntil_open hstate hu
  obtain ⟨o', ho', hkey, hstep⟩ := @step_origins url r s o ho
  cases hstep with
  | untouched _ other same =>
      refine ⟨o', ho', hkey, ?_, u, ?_, hdue⟩
      · exact (eq_of_pace same Origin.circuitState fun _ => rfl).trans hstate
      · exact (eq_of_pace same Origin.circuitOpenUntil fun _ => rfl).trans hu
  | probed other isOpen past =>
      exact absurd (le_trans hdue (le_trans hut (past t ht))) (not_le.mpr hnow)
  | touched t' eq admits =>
      cases t' with
      | claimed delay =>
          have hpast := (admits delay rfl).unblocked t ht
          exact absurd (le_trans hdue (le_trans hut hpast)) (not_le.mpr hnow)
      | succeeded =>
          obtain ⟨task, hreport, htask⟩ := reported_of_touch eq (by simp)
          have hearly : closesEarly url o.originKey r s = true := by
            simp only [closesEarly, hreport, htask, Bool.and_eq_true, decide_eq_true_eq,
              Table.any_eq_true, true_and]
            exact ⟨o, ho, rfl, hstate⟩
          rw [hopen] at hearly
          cases hearly
      | failed errorClass availableAt cools =>
          refine ⟨_, ho', hkey, ?_, ?_⟩
          · show (if 5 ≤ o.consecutiveFailures + failureWeight errorClass then
              CircuitState.open' else o.circuitState) = .open'
            split
            · rfl
            · exact hstate
          · show ∃ u, (if 5 ≤ o.consecutiveFailures + failureWeight errorClass then
              some (r.txn.now + seconds 300) else o.circuitOpenUntil) = some u ∧ due ≤ u
            split
            · exact ⟨_, rfl, hwindow⟩
            · exact ⟨u, hu, hdue⟩

theorem run_openUntil {key : String} {t : Time} {s : Store} {requests : List Request}
    (hopen : StepsMeet (step url) (fun r s => closesEarly url key r s = false) s requests)
    (hwindow : ∀ r ∈ requests, t ≤ r.txn.now ∧ r.txn.now < t + seconds 300)
    (h : OpenUntil key (t + seconds 300) s) :
    OpenUntil key (t + seconds 300) (run url s requests) := by
  induction requests generalizing s with
  | nil => exact h
  | cons r requests ih =>
      obtain ⟨hsince, hbefore⟩ := hwindow r (List.mem_cons_self ..)
      have hstep := step_openUntil hopen.1 (add_le_add_left hsince (seconds 300)) hbefore h
      exact ih hopen.2 (fun r hr => hwindow r (List.mem_cons_of_mem _ hr)) hstep

theorem OpenUntil.refuses (url : UrlIdentity) {key : String} {due : Time} {r : Request}
    {s : Store} {g : ClaimedTask} (h : OpenUntil key due s) (hnow : r.txn.now < due)
    (hg : granted r s = some g) : g.originKey ≠ key := by
  rintro rfl
  obtain ⟨o, ho, hkey, hstate, u, hu, hdue⟩ := h
  obtain ⟨t, ht, hut⟩ := blockedUntil_open hstate hu
  have htouch : touch url r s = some (o.originKey, .claimed g.config.minDelayMs) := by
    rw [touch_of_granted hg, hkey]
  obtain ⟨o', -, -, hstep⟩ := @step_origins url r s o ho
  cases hstep with
  | untouched _ other same => exact absurd htouch (other _)
  | probed other isOpen past => exact absurd htouch (other _)
  | touched t' eq admits =>
      obtain rfl : t' = .claimed g.config.minDelayMs := by
        simpa using eq.symm.trans htouch
      have hpast := (admits _ rfl).unblocked t ht
      exact absurd (le_trans hdue (le_trans hut hpast)) (not_le.mpr hnow)

/-! ## Runs -/

theorem run_append (s : Store) (requests more : List Request) :
    run url s (requests ++ more) = run url (run url s requests) more :=
  runFrom_append ..

/-- Five accepted failures on an origin without a success between them, none
lost, open its circuit for 300 seconds; in that window it stays open, unless a
resumed session succeeds, and no claim on the origin is granted. A failure of
any class after the fifth, such as a probe's, opens it anew. -/
theorem circuit_holds (s₀ : Store) (h₀ : CircuitsOk s₀) (before failures after : List Request)
    (last : Request) (o : Origin) (ho : o ∈ (run url s₀ before).origins)
    (hkept : StepsMeet (step url) (fun r s => losesFailure url o.originKey r s = false)
      (run url s₀ before) (failures ++ [last]))
    (hfive : 5 ≤ streak url o.originKey (run url s₀ before) (failures ++ [last]))
    (hfails : fails url o.originKey last (run url s₀ (before ++ failures)) = true)
    (hopen : StepsMeet (step url) (fun r s => closesEarly url o.originKey r s = false)
      (run url s₀ (before ++ failures ++ [last])) after)
    (hwindow : ∀ r ∈ after,
      last.txn.now ≤ r.txn.now ∧ r.txn.now < last.txn.now + seconds 300) :
    let s := run url s₀ (before ++ failures ++ [last] ++ after)
    OpenUntil o.originKey (last.txn.now + seconds 300) s ∧
      ∀ r g, r.txn.now < last.txn.now + seconds 300 → granted r s = some g →
        g.originKey ≠ o.originKey := by
  intro s
  obtain ⟨hkept, hlast, -⟩ := stepsMeet_append.mp hkept
  simp only [run_append] at hfails hopen
  rw [streak, streakFrom_append] at hfive
  have hok := @run_circuitsOk url _ before h₀
  have hcounts := run_counts hkept ⟨o, ho, rfl, (hok o ho).nonneg⟩
  have hopened := opens_of_fails hlast (run_circuitsOk failures hok) hcounts hfails hfive
  have hstill : OpenUntil o.originKey (last.txn.now + seconds 300) s := by
    show OpenUntil _ _ (run url s₀ (before ++ failures ++ [last] ++ after))
    simp only [run_append]
    exact run_openUntil hopen hwindow hopened
  exact ⟨hstill, fun r g hnow hg => hstill.refuses url hnow hg⟩

/-! ## Sample failures -/

def sampleKey : String := "https://example.com:443"

def transportFailure : FailureDecision :=
  { retry := true, errorClass := "transport", errorCode := "transport_error" }

/-- The `n`-th submission. -/
def submitNth (maxAttempts : {a : ℤ // 1 ≤ a ∧ a ≤ 4}) (n : ℕ) : Request :=
  ⟨{ now := seconds (10 * n), uuid := fun k => 100 * n + 1 + k }, .submitJob
    { Sample.config with
      acquisition := { maxAttempts := maxAttempts.1, maxAttempts_ok := maxAttempts.2 } } none⟩

/-- A claim at that second. -/
def claimAt (second : ℕ) : Request :=
  ⟨{ now := seconds second, uuid := fun k => 10 * second + k }, .claimTask "local" ["http"]⟩

/-- The failure of a lease taken at the second before. -/
def failAt (second : ℕ) (taskId : Uuid) (availableAt : ℤ) : Request :=
  ⟨{ now := seconds second, uuid := fun k => 10 * second + k },
    .retryTask taskId (10 * (second - 1)) transportFailure (seconds availableAt) {}⟩

/-- Five pages with one attempt each, of which the last has yet to fail. -/
def oneShots : List Request :=
  (List.range 4).flatMap (fun n =>
    [submitNth ⟨1, by decide⟩ n, claimAt (10 * n + 1), failAt (10 * n + 2) (100 * n + 2) 0]) ++
  [submitNth ⟨1, by decide⟩ 4, claimAt 41]

def fifthFailure : Request := failAt 42 402 0

/-- After five accepted transport failures, each on its task's last attempt,
the circuit is closed and the origin's next page is claimed at once. -/
theorem circuit_missed :
    let s := run Sample.identity {} oneShots
    let s' := run Sample.identity {} (oneShots ++ [fifthFailure, submitNth ⟨1, by decide⟩ 5])
    streak Sample.identity sampleKey {} (oneShots ++ [fifthFailure]) = 5 ∧
      fails Sample.identity sampleKey fifthFailure s = true ∧
      ¬ OpenUntil sampleKey (fifthFailure.txn.now + seconds 300) s' ∧
      (claimAt 51).txn.now < fifthFailure.txn.now + seconds 300 ∧
      ∃ g, granted (claimAt 51) s' = some g ∧ g.originKey = sampleKey := by
  intro s s'
  have hclosed : (s'.origins.any fun o =>
      o.originKey = sampleKey && o.circuitState = .open') = false := by decide +kernel
  have hclaim : (granted (claimAt 51) s').map ClaimedTask.originKey = some sampleKey := by
    decide +kernel
  refine ⟨by decide +kernel, by decide +kernel, ?_, by decide, ?_⟩
  · rintro ⟨o, ho, hkey, hopen, -⟩
    have : (s'.origins.any fun o => o.originKey = sampleKey && o.circuitState = .open') = true :=
      Table.any_eq_true.mpr ⟨o, ho, by simp [hkey, hopen]⟩
    rw [hclosed] at this
    cases this
  · obtain ⟨g, hg, hkey⟩ := Option.map_eq_some_iff.mp hclaim
    exact ⟨g, hg, hkey⟩

/-- Two pages with four attempts each, of which one fails three times and the
other once. -/
def retries : List Request :=
  [claimAt 21, failAt 22 2 0, claimAt 24, failAt 25 2 0, claimAt 27, failAt 28 2 60,
    claimAt 61, failAt 62 102 0, claimAt 64]

theorem circuit_holds_retries :
    let before := [submitNth ⟨4, by decide⟩ 0, submitNth ⟨4, by decide⟩ 1]
    let s := run Sample.identity {} (before ++ retries ++ [failAt 65 102 0] ++ [claimAt 66])
    OpenUntil sampleKey ((failAt 65 102 0).txn.now + seconds 300) s ∧
      ∀ r g, r.txn.now < (failAt 65 102 0).txn.now + seconds 300 → granted r s = some g →
        g.originKey ≠ sampleKey := by
  intro before s
  have hfound : ((run Sample.identity {} before).origins.find? fun o =>
      o.originKey = sampleKey).isSome = true := by decide
  obtain ⟨o, ho⟩ := Option.isSome_iff_exists.mp hfound
  obtain ⟨hmem, hkey⟩ := Table.find?_eq_some ho
  have hkey : o.originKey = sampleKey := of_decide_eq_true hkey
  rw [← hkey]
  refine circuit_holds {} (by intro o ho; simp at ho) before retries [claimAt 66]
    (failAt 65 102 0) o hmem ?_ ?_ ?_ ?_ ?_
  · rw [hkey]
    decide
  · rw [hkey]
    decide
  · rw [hkey]
    decide
  · rw [hkey]
    decide
  · decide

example : (run Sample.identity {} [submitNth ⟨4, by decide⟩ 0, claimAt 2]).origins.rows.map
    Origin.circuitState = [.closed] := by
  decide +kernel

end Origins

end CrawlTrove
