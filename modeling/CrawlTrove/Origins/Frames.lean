import CrawlTrove.Relational.Steps
import CrawlTrove.Store.System

/-!
# Transactions that leave the origins alone

Origins change when a page is claimed, succeeds or is put back, and when a
robots file is stored. Every other transaction keeps the origins and the
enrolled workers: its statements touch other tables only.
-/

namespace CrawlTrove

open Relational Transaction Numerals

namespace Origins

/-- The tables outside the crawl proper. -/
def around (s : Store) : Table Origin × Table Worker := (s.origins, s.workers)

/-- The transaction keeps origins and workers. -/
abbrev Keeps {α : Type} (m : Tx α) : Prop := Steps (Frame around) m

theorem origins_of_around {s s' : Store} (h : around s' = around s) : s'.origins = s.origins :=
  congrArg Prod.fst h

theorem keeps_exec {f : Store → Store} (h : ∀ s, around (f s) = around s) : Keeps (exec f) :=
  Steps.exec h

/-- A statement, and what follows it. -/
theorem keeps_exec_bind {α : Type} {f : Store → Store} {k : PUnit → Tx α}
    (h : ∀ s, around (f s) = around s) (hk : Keeps (k ⟨⟩)) : Keeps (exec f >>= k) :=
  (keeps_exec h).bind fun _ => hk

/-- An insert, and what follows it. -/
theorem keeps_attempt_bind {α : Type} {e : DbError} {f : Store → Option Store} {k : PUnit → Tx α}
    (h : ∀ s s', f s = some s' → around s' = around s) (hk : Keeps (k ⟨⟩)) :
    Keeps (attempt e f >>= k) :=
  Steps.bind (Steps.attempt h) fun _ => hk

theorem insertAttempt_around {a : Attempt} (s s' : Store) (h : s.insertAttempt a = some s') :
    around s' = around s := by
  obtain ⟨T, -, rfl⟩ := Option.map_eq_some_iff.mp h
  rfl

theorem insertSession_around {l : LiveSession} (s s' : Store) (h : s.insertSession l = some s') :
    around s' = around s := by
  obtain ⟨T, -, rfl⟩ := Option.map_eq_some_iff.mp h
  rfl

theorem insertOriginLease_around {l : OriginLease} (s s' : Store)
    (h : s.insertOriginLease l = some s') : around s' = around s := by
  obtain ⟨T, -, rfl⟩ := Option.map_eq_some_iff.mp h
  rfl

theorem insertResult_around {r : CrawlResult} (s s' : Store) (h : s.insertResult r = some s') :
    around s' = around s := by
  obtain ⟨T, -, rfl⟩ := Option.map_eq_some_iff.mp h
  rfl

theorem insertUsage_around {u : Usage} (s s' : Store) (h : s.insertUsage u = some s') :
    around s' = around s := by
  obtain ⟨T, -, rfl⟩ := Option.map_eq_some_iff.mp h
  rfl

theorem insertJob_around {j : Job} (s s' : Store) (h : s.insertJob j = some s') :
    around s' = around s := by
  obtain ⟨T, -, rfl⟩ := Option.map_eq_some_iff.mp h
  rfl

theorem insertTask_around {t : Task} (s s' : Store) (h : s.insertTask t = some s') :
    around s' = around s := by
  unfold Store.insertTask at h
  split at h
  · obtain ⟨T, -, rfl⟩ := Option.map_eq_some_iff.mp h
    rfl
  · cases h

/-! ## Helpers of the core -/

theorem drainUnleased_around (now : Time) (jobId : Uuid) (reason : String) (s : Store) :
    around (drainUnleased now jobId reason s) = around s := by
  simp only [drainUnleased]
  split <;> rfl

theorem enforceFailureLimit_around (now : Time) (jobId : Uuid) (s : Store) :
    around (enforceFailureLimit now jobId s) = around s := by
  unfold enforceFailureLimit
  split
  · rfl
  · split
    · exact drainUnleased_around ..
    · rfl

theorem chargeDownload_around (task : Task) (downloaded : ℤ) (s : Store) :
    around (chargeDownload task downloaded s) = around s := by
  unfold chargeDownload
  split <;> rfl

theorem terminalize_around (now : Time) (f : FencedTask) (state : TaskState)
    (errorClass errorCode : Option String) (s : Store) :
    around (terminalize now f state errorClass errorCode s) = around s := by
  show around (if state = .permanentFailed then _ else _) = around s
  split
  · exact (enforceFailureLimit_around ..).trans rfl
  · rfl

theorem failPermanently_around (x : Txn) (f : FencedTask) (decision : FailureDecision)
    (metadata : Metadata) (s : Store) :
    around (failPermanently x f decision metadata s) = around s :=
  (chargeDownload_around ..).trans (terminalize_around ..)

theorem rejectOverBudget_around (x : Txn) (f : FencedTask) (metadata : Metadata)
    (reason : String) (s : Store) :
    around (rejectOverBudget x f metadata reason s) = around s :=
  (drainUnleased_around ..).trans ((chargeDownload_around ..).trans (terminalize_around ..))

/-! ## Provider reservations -/

/-- `get` reads neither the ledger nor the attempts. -/
def IgnoresLedger {γ : Type} (get : Store → γ) : Prop :=
  ∀ (s : Store) (usage : Table Usage) (attempts : Table Attempt),
    get { s with usage, attempts } = get s

section Ledger

variable {γ : Type} {get : Store → γ} (hget : IgnoresLedger get)

include hget

theorem adjustUsage_frame (jobId : Uuid) (provider : Provider) (meter : Meter)
    (reserved consumed : ℚ) :
    Steps (Frame get) (adjustUsage jobId provider meter reserved consumed) := by
  unfold adjustUsage
  refine Steps.read_bind fun found => ?_
  cases found with
  | none => exact Steps.raise _
  | some u => exact Steps.ite (Steps.exec fun s => hget s _ s.attempts) (Steps.raise _)

theorem adjustMeters_frame (jobId : Uuid) (provider : Provider) (reserved consumed : Meter → ℚ)
    (meters : List Meter) :
    Steps (Frame get) (adjustMeters jobId provider reserved consumed meters) := by
  induction meters with
  | nil => exact Steps.pure _
  | cons m meters ih => exact (adjustUsage_frame hget ..).bind fun _ => ih

theorem consumeAbandoned_frame (x : Txn) (a : Attempt) :
    Steps (Frame get) (consumeAbandoned x a) := by
  have hclosed : ∀ p f hf, Steps (Frame get)
      (exec fun s => s.updateAttempts p f hf : Tx PUnit) :=
    fun p f hf => Steps.exec fun s => hget s s.usage _
  unfold consumeAbandoned
  cases a.route with
  | none => exact Steps.raise _
  | some route =>
      dsimp only
      cases nativeCost route (a.reservedCost.loads route).toNativeValues with
      | error message => exact Steps.raise _
      | ok reserved =>
          exact Steps.ite ((adjustMeters_frame hget ..).bind fun _ => hclosed ..) (hclosed ..)

theorem consumeAll_frame (x : Txn) (attempts : List Attempt) :
    Steps (Frame get) (consumeAll x attempts) := by
  induction attempts with
  | nil => exact Steps.pure _
  | cons a attempts ih => exact (consumeAbandoned_frame hget ..).bind fun _ => ih

theorem reconcileAbandoned_frame (x : Txn) (only : Option Uuid) :
    Steps (Frame get) (reconcileAbandoned x only) :=
  Steps.read_bind fun _ => consumeAll_frame hget ..

end Ledger

theorem ignoresLedger_around : IgnoresLedger around := fun _ _ _ => rfl

theorem adjustMeters_keeps (jobId : Uuid) (provider : Provider) (reserved consumed : Meter → ℚ)
    (meters : List Meter) : Keeps (adjustMeters jobId provider reserved consumed meters) :=
  adjustMeters_frame ignoresLedger_around ..

theorem reconcileAbandoned_keeps (x : Txn) (only : Option Uuid) :
    Keeps (reconcileAbandoned x only) :=
  reconcileAbandoned_frame ignoresLedger_around ..

theorem rejectInactiveLease_keeps (x : Txn) (f : FencedTask) : Keeps (rejectInactiveLease x f) := by
  unfold rejectInactiveLease
  refine Steps.ite ?_ (Steps.ite ?_ (Steps.pure _))
  · exact keeps_exec_bind (terminalize_around _ _ _ _ _) <|
      Steps.bind (reconcileAbandoned_keeps ..) fun _ => Steps.pure _
  · exact keeps_exec_bind (terminalize_around _ _ _ _ _) <|
      Steps.bind (reconcileAbandoned_keeps ..) fun _ => Steps.pure _

theorem activeLease_keeps (x : Txn) (taskId token : Uuid) : Keeps (activeLease x taskId token) := by
  unfold activeLease
  refine Steps.read_bind fun found => ?_
  cases found with
  | none => exact Steps.pure _
  | some f =>
      refine (rejectInactiveLease_keeps ..).bind fun rejected => ?_
      exact Steps.ite (Steps.pure _) (Steps.pure _)

/-! ## Transactions of the core -/

theorem insertUsageRows_keeps (jobId : Uuid)
    (rows : List (Provider × Meter × {limit : ℚ // 0 ≤ limit})) :
    Keeps (insertUsageRows jobId rows) := by
  induction rows with
  | nil => exact Steps.pure _
  | cons row rows ih => exact keeps_attempt_bind insertUsage_around ih

theorem requestCancel_keeps (x : Txn) (jobId : Uuid) : Keeps (requestCancel x jobId) := by
  unfold requestCancel
  refine Steps.read_bind fun found => ?_
  cases found with
  | none => exact Steps.pure _
  | some job =>
      refine Steps.ite (Steps.pure _) (Steps.read_bind fun _ => ?_)
      exact keeps_exec_bind (fun _ => rfl) <| keeps_exec_bind (fun _ => rfl) <|
        keeps_exec_bind (fun _ => rfl) <|
          Steps.bind (reconcileAbandoned_keeps ..) fun _ => Steps.pure _

theorem expireQueued_around (now : Time) (jobId : Uuid) (s : Store) :
    around (expireQueued now jobId s) = around s := by
  simp only [expireQueued]
  split <;> rfl

theorem finalizeJob_around (now : Time) (job : Job) (s : Store) :
    around (finalizeJob now job s) = around s := by
  simp only [finalizeJob]
  split
  · split
    · exact expireQueued_around ..
    · exact (expireQueued_around now job.id s).symm ▸ rfl
  · split <;> rfl

theorem finalizeJobs_around (x : Txn) (s : Store) : around (finalizeJobs x s) = around s := by
  unfold finalizeJobs
  generalize (s.jobs.select fun j => !j.state.terminal && !x.lockedJob j.id) = jobs
  induction jobs generalizing s with
  | nil => rfl
  | cons job jobs ih =>
      rw [List.foldl_cons]
      exact (ih _).trans (finalizeJob_around ..)

theorem heartbeat_keeps (x : Txn) (taskId token : Uuid) : Keeps (heartbeat x taskId token) := by
  unfold heartbeat
  refine (activeLease_keeps ..).bind fun found => ?_
  cases found with
  | none => exact Steps.pure _
  | some f =>
      exact keeps_exec_bind (fun _ => rfl) <| keeps_exec_bind (fun _ => rfl) <|
        Steps.read _

theorem reserveBrowserNavigation_keeps (x : Txn) (taskId token : Uuid) :
    Keeps (reserveBrowserNavigation x taskId token) := by
  unfold reserveBrowserNavigation
  refine (activeLease_keeps ..).bind fun found => ?_
  cases found with
  | none => exact Steps.pure _
  | some f =>
      exact Steps.read_bind fun _ => keeps_exec_bind (fun _ => rfl) <| Steps.pure _

theorem failTask_keeps (x : Txn) (taskId token : Uuid) (decision : FailureDecision)
    (metadata : Metadata) : Keeps (failTask x taskId token decision metadata) := by
  unfold failTask
  refine (activeLease_keeps ..).bind fun found => ?_
  cases found with
  | none => exact Steps.pure _
  | some f =>
      exact keeps_exec_bind (failPermanently_around _ _ _ _) <| Steps.pure _

theorem blockRobots_keeps (x : Txn) (taskId token : Uuid) (code : String) :
    Keeps (blockRobots x taskId token code) := by
  unfold blockRobots
  refine (activeLease_keeps ..).bind fun found => ?_
  cases found with
  | none => exact Steps.pure _
  | some f => exact keeps_exec_bind (terminalize_around _ _ _ _ _) <| Steps.pure _

theorem reapLease_keeps (x : Txn) (lease : Uuid × Option Uuid) : Keeps (reapLease x lease) := by
  unfold reapLease
  refine Steps.read_bind fun found => ?_
  cases found with
  | none => exact Steps.pure _
  | some f =>
      refine (rejectInactiveLease_keeps ..).bind fun rejected => Steps.ite (Steps.pure _) ?_
      refine Steps.ite ?_ ?_
      · exact keeps_exec_bind (terminalize_around _ _ _ _ _) <| Steps.pure _
      · exact keeps_exec_bind (fun _ => rfl) <| Steps.pure _

theorem reapLeases_keeps (x : Txn) (leases : List (Uuid × Option Uuid)) (reaped : ℕ) :
    Keeps (reapLeases x leases reaped) := by
  induction leases generalizing reaped with
  | nil => exact Steps.pure _
  | cons lease leases ih => exact (reapLease_keeps ..).bind fun _ => ih _

theorem reapExpiredLeases_keeps (x : Txn) : Keeps (reapExpiredLeases x) :=
  (reconcileAbandoned_keeps ..).bind fun _ => Steps.read_bind fun _ => reapLeases_keeps ..

/-! ## Discovered links -/

theorem insertTaskOnce_keeps (t : Task) : Keeps (insertTaskOnce t) := by
  unfold insertTaskOnce
  refine Steps.read_bind fun found => Steps.ite (Steps.pure _) ?_
  exact keeps_attempt_bind insertTask_around <| Steps.pure _

theorem insertLinks_keeps (url : UrlIdentity) (x : Txn) (f : FencedTask) (remaining : ℤ)
    (urls : List String) (draw : ℕ) (accepted : ℤ) :
    Keeps (insertLinks url x f remaining urls draw accepted) := by
  induction urls generalizing draw accepted with
  | nil => exact Steps.pure _
  | cons original urls ih =>
      unfold insertLinks
      refine Steps.ite (Steps.pure _) (Steps.ite (ih ..) ?_)
      exact (insertTaskOnce_keeps ..).bind fun _ => ih ..

theorem insertDiscovered_keeps (url : UrlIdentity) (x : Txn) (f : FencedTask)
    (urls : List String) : Keeps (insertDiscovered url x f urls) := by
  unfold insertDiscovered
  refine Steps.ite (Steps.pure _) (Steps.ite (Steps.pure _) ?_)
  refine (insertLinks_keeps ..).bind fun accepted => Steps.ite ?_ (Steps.pure _)
  exact keeps_exec fun _ => rfl

theorem remote_insertLinks_keeps (x : Txn) (f : FencedTask) (links : List WorkerApi.RemoteLink)
    (draw : ℕ) : Keeps (WorkerApi.insertLinks x f links draw) := by
  induction links generalizing draw with
  | nil => exact Steps.pure _
  | cons link links ih =>
      unfold WorkerApi.insertLinks
      refine Steps.read_bind fun found => ?_
      cases found with
      | none => exact Steps.pure _
      | some job =>
          refine Steps.ite ?_ (ih ..)
          cases link.url with
          | none => exact Steps.raise _
          | some reported =>
              cases link.sha256 with
              | none => exact Steps.raise _
              | some digest =>
                  refine (insertTaskOnce_keeps ..).bind fun inserted => Steps.ite ?_ (ih ..)
                  exact keeps_exec_bind (fun _ => rfl) <| ih ..

/-! ## Provider attempts -/

theorem reserveAcquisitionAttempt_keeps (x : Txn) (taskId token : Uuid) (route : Route)
    (reservedCost : PyValues) :
    Keeps (reserveAcquisitionAttempt x taskId token route reservedCost) := by
  unfold reserveAcquisitionAttempt
  cases nativeCost route reservedCost.toNativeValues with
  | error message => exact Steps.raise _
  | ok cost =>
      refine (activeLease_keeps ..).bind fun found => ?_
      cases found with
      | none => exact Steps.pure _
      | some f =>
          refine Steps.read_bind fun allowed => Steps.ite (Steps.pure _) ?_
          refine Steps.read_bind fun covered => Steps.ite (Steps.pure _) ?_
          exact Steps.read_bind fun _ => (adjustMeters_keeps ..).bind fun _ =>
            keeps_attempt_bind insertAttempt_around <| Steps.pure _

theorem settleAttempt_keeps (x : Txn) (jobId : Uuid) (a : Attempt) (route : Route)
    (reserved actual : Meter → Numeral) (outcome : Option String) (costEstimated : Bool) :
    Keeps (settleAttempt x jobId a route reserved actual outcome costEstimated) :=
  (adjustMeters_keeps ..).bind fun _ => keeps_exec fun _ => rfl

theorem finishAcquisitionAttempt_keeps (x : Txn) (attemptId token : Uuid) (outcome : String)
    (actualCost : PyValues) (costEstimated : Bool) :
    Keeps (finishAcquisitionAttempt x attemptId token outcome actualCost costEstimated) := by
  unfold finishAcquisitionAttempt
  refine Steps.read_bind fun found => ?_
  cases found with
  | none => exact Steps.pure _
  | some a =>
      refine Steps.ite (Steps.pure _) ((activeLease_keeps ..).bind fun found => ?_)
      cases found with
      | none => exact Steps.pure _
      | some f =>
          refine Steps.ite (Steps.pure _) ?_
          cases a.route with
          | none => exact Steps.raise _
          | some route =>
              dsimp only
              cases nativeCost route actualCost.toNativeValues with
              | error message => exact Steps.raise _
              | ok actual =>
                  dsimp only
                  cases nativeCost route (a.reservedCost.loads route).toNativeValues with
                  | error message => exact Steps.raise _
                  | ok reserved =>
                      refine Steps.ite (Steps.raise _) (Steps.ite (Steps.raise _) ?_)
                      exact (settleAttempt_keeps ..).bind fun _ => Steps.pure _

/-! ## Live sessions -/

theorem waitForInputLocal_keeps (x : Txn) (taskId token : Uuid) (backend workerId : String)
    (ttlSeconds : ℤ) : Keeps (waitForInputLocal x taskId token backend workerId ttlSeconds) := by
  unfold waitForInputLocal
  refine Steps.ite (Steps.raise _) (Steps.read_bind fun found => ?_)
  cases found with
  | none => exact Steps.raise _
  | some f =>
      refine Steps.ite (Steps.raise _) ?_
      exact keeps_attempt_bind insertSession_around <|
        keeps_exec_bind (fun _ => rfl) <| Steps.pure _

theorem closeTask_around (now : Time) (task : Task) (reason : CloseReason) (owned : Bool)
    (s : Store) : around (closeTask now task reason owned s) = around s := by
  unfold closeTask
  split
  · rfl
  · split <;> rfl

theorem closeSession_keeps (x : Txn) (id : Uuid) (reason : CloseReason)
    (workerId : Option String) : Keeps (closeSession x id reason workerId) := by
  unfold closeSession
  refine Steps.ite (Steps.raise _) (Steps.read_bind fun found => ?_)
  cases found with
  | none => exact Steps.pure _
  | some session =>
      refine Steps.read_bind fun found => ?_
      cases found with
      | none => exact keeps_exec_bind (fun _ => rfl) <| Steps.pure _
      | some task =>
          refine Steps.ite ?_ ?_
          · exact keeps_exec_bind (fun _ => rfl) <| Steps.pure _
          · exact keeps_exec_bind (closeTask_around _ _ _ _) <|
              keeps_exec_bind (fun _ => rfl) <| Steps.pure _

theorem expireSession_around (x : Txn) (session : LiveSession) (s : Store) :
    around (expireSession x session s) = around s := by
  unfold expireSession
  split
  · rfl
  · split <;> rfl

theorem expireDue_around (x : Txn) (s : Store) : around (expireDue x s) = around s := by
  have hfold (rows : List LiveSession) (s : Store) :
      around (rows.foldl (fun s l => expireSession x l s) s) = around s := by
    induction rows generalizing s with
    | nil => rfl
    | cons l rows ih =>
        rw [List.foldl_cons]
        exact (ih _).trans (expireSession_around ..)
  exact (hfold _ _).trans rfl

theorem grantResumed_keeps (x : Txn) (workerId : String) (task : Task) (job : Job)
    (bytes artifacts : ℤ) : Keeps (grantResumed x workerId task job bytes artifacts) :=
  keeps_exec_bind (fun _ => rfl) <| keeps_exec_bind (fun _ => rfl) <|
    keeps_attempt_bind insertOriginLease_around <| Steps.pure _

theorem resumeLiveSession_keeps (x : Txn) (id : Uuid) (workerId : String) :
    Keeps (resumeLiveSession x id workerId) := by
  unfold resumeLiveSession
  refine Steps.read_bind fun found => ?_
  cases found with
  | none => exact Steps.pure _
  | some session =>
      refine Steps.read_bind fun found => ?_
      cases found with
      | none => exact Steps.pure _
      | some task =>
          refine Steps.read_bind fun found => ?_
          cases found with
          | none => exact Steps.pure _
          | some job =>
              refine Steps.ite (Steps.pure _) (Steps.read_bind fun _ => Steps.ite (Steps.pure _) ?_)
              exact Steps.ite (Steps.pure _) (grantResumed_keeps ..).map

/-! ## Transactions of remote workers -/

theorem identity_keeps (role : String) (draining : Bool) :
    Keeps (WorkerApi.identity role draining) := by
  unfold WorkerApi.identity
  refine Steps.read_bind fun found => ?_
  cases found with
  | none => exact Steps.raise _
  | some worker => exact Steps.pure _

theorem castInt_keeps (default : ℤ) (v : ReportedInt) : Keeps (WorkerApi.castInt default v) := by
  unfold WorkerApi.castInt
  cases v.sql? default with
  | none => exact Steps.raise _
  | some n => exact Steps.pure _

theorem remote_heartbeat_keeps (x : Txn) (role : String) (taskId token : Uuid) :
    Keeps (WorkerApi.heartbeat x role taskId token) := by
  unfold WorkerApi.heartbeat
  refine (identity_keeps ..).bind fun worker => Steps.read_bind fun found => ?_
  cases found with
  | none => exact Steps.pure _
  | some f => exact keeps_exec_bind (fun _ => rfl) <| keeps_exec_bind (fun _ => rfl) <| Steps.read _

theorem remote_reserveBrowserNavigation_keeps (x : Txn) (role : String) (taskId token : Uuid) :
    Keeps (WorkerApi.reserveBrowserNavigation x role taskId token) := by
  unfold WorkerApi.reserveBrowserNavigation
  refine (identity_keeps ..).bind fun worker => Steps.read_bind fun found => ?_
  cases found with
  | none => exact Steps.pure _
  | some f => exact Steps.read_bind fun _ => keeps_exec_bind (fun _ => rfl) <| Steps.pure _

theorem remote_blockRobots_keeps (x : Txn) (role : String) (taskId token : Uuid) (code : String) :
    Keeps (WorkerApi.blockRobots x role taskId token code) := by
  unfold WorkerApi.blockRobots
  refine (identity_keeps ..).bind fun worker => Steps.read_bind fun found => ?_
  cases found with
  | none => exact Steps.pure _
  | some f =>
      exact keeps_exec_bind (fun _ => rfl) <| keeps_exec_bind (fun _ => rfl) <|
        keeps_exec_bind (fun _ => rfl) <| Steps.pure _

theorem fail_keeps (x : Txn) (role : String) (taskId token : Uuid)
    (errorClass errorCode : String) (metadata : Metadata) :
    Keeps (WorkerApi.fail x role taskId token errorClass errorCode metadata) := by
  unfold WorkerApi.fail
  refine (identity_keeps ..).bind fun worker => Steps.read_bind fun found => ?_
  cases found with
  | none => exact Steps.pure _
  | some task =>
      exact (castInt_keeps ..).bind fun _ => keeps_exec_bind (fun _ => rfl) <| Steps.pure _

theorem release_keeps (x : Txn) (role : String) (taskId token : Uuid) :
    Keeps (WorkerApi.release x role taskId token) := by
  unfold WorkerApi.release
  refine (identity_keeps ..).bind fun worker => Steps.read_bind fun found => ?_
  cases found with
  | none => exact Steps.pure _
  | some task => exact keeps_exec_bind (fun _ => rfl) <| Steps.pure _

theorem startLiveSession_keeps (x : Txn) (role : String) (taskId token : Uuid)
    (backend workerId : String) (ttlSeconds : Option ℤ) (code : String) :
    Keeps (WorkerApi.startLiveSession x role taskId token backend workerId ttlSeconds code) := by
  unfold WorkerApi.startLiveSession
  refine (identity_keeps ..).bind fun worker => Steps.ite (Steps.raise _) ?_
  refine Steps.read_bind fun found => ?_
  cases found with
  | none => exact Steps.pure _
  | some f =>
      refine Steps.ite (Steps.pure _) ?_
      exact keeps_attempt_bind insertSession_around <| keeps_exec_bind (fun _ => rfl) <|
        Steps.pure _

theorem waitForInput_keeps (x : Txn) (role : String) (taskId token : Uuid) (code : String) :
    Keeps (WorkerApi.waitForInput x role taskId token code) :=
  (identity_keeps ..).bind fun _ => (startLiveSession_keeps ..).bind fun _ => Steps.pure _

theorem touchLiveSession_keeps (x : Txn) (role : String) (id : Uuid) :
    Keeps (WorkerApi.touchLiveSession x role id) := by
  unfold WorkerApi.touchLiveSession
  refine (identity_keeps ..).bind fun worker => Steps.read_bind fun ok => ?_
  exact keeps_exec_bind (fun _ => rfl) <| Steps.pure _

theorem remote_closeTask_around (now : Time) (task : Task) (reason : CloseReason) (owned : Bool)
    (s : Store) : around (WorkerApi.closeTask now task reason owned s) = around s := by
  unfold WorkerApi.closeTask
  split
  · rfl
  · split <;> rfl

theorem closeLiveSession_keeps (x : Txn) (role : String) (id : Uuid) (reason : CloseReason) :
    Keeps (WorkerApi.closeLiveSession x role id reason) := by
  unfold WorkerApi.closeLiveSession
  refine (identity_keeps ..).bind fun worker => Steps.ite (Steps.raise _) ?_
  refine Steps.read_bind fun found => ?_
  cases found with
  | none => exact Steps.pure _
  | some session =>
      refine Steps.read_bind fun found => ?_
      cases found with
      | none => exact keeps_exec_bind (fun _ => rfl) <| Steps.pure _
      | some task =>
          refine Steps.ite ?_ ?_
          · exact keeps_exec_bind (fun _ => rfl) <| Steps.pure _
          · exact keeps_exec_bind (remote_closeTask_around _ _ _ _) <|
              keeps_exec_bind (fun _ => rfl) <| Steps.pure _

theorem remote_resumeLiveSession_keeps (x : Txn) (role : String) (id : Uuid) :
    Keeps (WorkerApi.resumeLiveSession x role id) := by
  unfold WorkerApi.resumeLiveSession
  refine (identity_keeps ..).bind fun worker => Steps.read_bind fun found => ?_
  cases found with
  | none => exact Steps.pure _
  | some session =>
      refine Steps.read_bind fun found => ?_
      cases found with
      | none => exact Steps.pure _
      | some task => exact Steps.ite (Steps.pure _) (Steps.raise _)

theorem finishLiveSession_keeps (role : String) (id : Uuid) :
    Keeps (WorkerApi.finishLiveSession role id) := by
  unfold WorkerApi.finishLiveSession
  refine (identity_keeps ..).bind fun worker => Steps.read_bind fun done => ?_
  exact Steps.read_bind fun ok => keeps_exec_bind (fun _ => rfl) <| Steps.pure _

theorem reserveProviderAttempt_keeps (x : Txn) (role : String) (taskId token : Uuid)
    (route : Route) (reserved : NativeValues) :
    Keeps (WorkerApi.reserveProviderAttempt x role taskId token route reserved) := by
  unfold WorkerApi.reserveProviderAttempt
  refine (identity_keeps ..).bind fun worker => ?_
  cases nativeCost route reserved with
  | error message => exact Steps.raise _
  | ok cost =>
      refine Steps.ite (Steps.raise _) (Steps.read_bind fun found => ?_)
      cases found with
      | none => exact Steps.pure _
      | some f =>
          refine Steps.read_bind fun allowed => Steps.ite (Steps.pure _) ?_
          refine Steps.read_bind fun covered => Steps.ite (Steps.pure _) ?_
          exact Steps.read_bind fun _ => (adjustMeters_keeps ..).bind fun _ =>
            keeps_attempt_bind insertAttempt_around <| Steps.pure _

theorem finishProviderAttempt_keeps (x : Txn) (role : String) (attemptId token : Uuid)
    (outcome : Option String) (actual : NativeValues) (estimated : Bool) :
    Keeps (WorkerApi.finishProviderAttempt x role attemptId token outcome actual estimated) := by
  unfold WorkerApi.finishProviderAttempt
  refine (identity_keeps ..).bind fun worker => Steps.ite (Steps.raise _) ?_
  refine Steps.read_bind fun found => ?_
  cases found with
  | none => exact Steps.pure _
  | some a =>
      refine Steps.ite (Steps.pure _) ?_
      cases a.route with
      | none => exact Steps.raise _
      | some route =>
          refine Steps.ite (Steps.raise _) (Steps.read_bind fun found => ?_)
          cases found with
          | none => exact Steps.pure _
          | some f =>
              exact Steps.ite (Steps.raise _) ((settleAttempt_keeps ..).bind fun _ => Steps.pure _)

/-- Enrolment changes workers only. -/
theorem frame_exec_pure {α : Type} {f : Store → Store} (a : α)
    (h : ∀ s, (f s).origins = s.origins) :
    Steps (Frame Store.origins) (exec f >>= fun _ => pure a : Tx α) :=
  Steps.bind (Steps.exec h) fun _ => Steps.pure a

theorem register_frame (role : String) (protocol : ℤ) (capabilities : List String) :
    Steps (Frame Store.origins) (WorkerApi.register role protocol capabilities) := by
  unfold WorkerApi.register
  refine Steps.read_bind fun found => ?_
  cases found with
  | none => exact Steps.pure _
  | some worker =>
      refine Steps.ite (Steps.pure _) (Steps.ite ?_ ?_)
      · exact frame_exec_pure _ fun _ => rfl
      · exact frame_exec_pure _ fun _ => rfl

theorem drain_frame (role : String) : Steps (Frame Store.origins) (WorkerApi.drain role) := by
  unfold WorkerApi.drain
  exact Steps.read_bind fun _ => frame_exec_pure _ fun _ => rfl

end Origins

end CrawlTrove
