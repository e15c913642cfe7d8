import CrawlTrove.Lifecycle.Helpers
import CrawlTrove.Lifecycle.JobActions
import CrawlTrove.Protocol.View

/-!
# Work that only winds down

Most transactions queue nothing: they leave, lease or end the queued tasks they
find, and a job they bring to its failure limit has none left. `WindsDown` says
so of two stores. `_drain_unleased` and `_enforce_failure_limit` complete it for
the one job whose failures a transaction has just counted.
-/

namespace CrawlTrove

open Relational Transaction

open Lifecycle Protocol

namespace Limits

/-- The job has failed as often as it may. -/
def AtLimit (jobId : Uuid) (s : Store) : Prop :=
  ∃ j ∈ s.jobs, j.id = jobId ∧ j.config.maxFailures ≤ j.failedCount

/-- The job has failed as often as it may, and still has work queued. -/
def Overrun (jobId : Uuid) (s : Store) : Prop := AtLimit jobId s ∧ hasQueued jobId s = true

instance (jobId : Uuid) (s : Store) : Decidable (AtLimit jobId s) :=
  inferInstanceAs (Decidable (∃ j ∈ s.jobs, _))

instance (jobId : Uuid) (s : Store) : Decidable (Overrun jobId s) :=
  inferInstanceAs (Decidable (_ ∧ _))

/-- Nothing is queued that was not, deadlines and sessions stay, and only
exempt jobs may reach their limit with work queued. -/
structure WindsBut (exempt : Uuid → Prop) (s s' : Store) : Prop where
  sessions : s'.sessions = s.sessions
  queued : ∀ t' ∈ s'.tasks, t'.state.queued = true →
    ∃ t ∈ s.tasks, t.id = t'.id ∧ t.jobId = t'.jobId ∧ t.state = t'.state
  jobs : ∀ j ∈ s.jobs, ∃ j' ∈ s'.jobs, j'.id = j.id ∧ j'.deadlineAt = j.deadlineAt
  limit : ∀ jobId, ¬ exempt jobId → Overrun jobId s' → AtLimit jobId s

/-- As `WindsBut`, for every job. -/
abbrev WindsDown : Store → Store → Prop := WindsBut fun _ => False

namespace WindsBut

variable {exempt : Uuid → Prop} {s s' s'' : Store} {jobId : Uuid}

/-- Of queued tasks none arrive. -/
theorem hasQueued (h : WindsBut exempt s s') (hqueued : hasQueued jobId s' = true) :
    Protocol.hasQueued jobId s = true := by
  obtain ⟨t', ht', hp⟩ := Table.any_eq_true.mp hqueued
  simp only [Bool.and_eq_true, decide_eq_true_eq] at hp
  obtain ⟨t, ht, -, hjob, hstate⟩ := h.queued t' ht' hp.2
  refine Table.any_eq_true.mpr ⟨t, ht, ?_⟩
  simp only [Bool.and_eq_true, decide_eq_true_eq]
  exact ⟨hjob.trans hp.1, hstate ▸ hp.2⟩

theorem overrun (h : WindsBut exempt s s') (hexempt : ¬ exempt jobId) (ho : Overrun jobId s') :
    Overrun jobId s :=
  ⟨h.limit jobId hexempt ho, h.hasQueued ho.2⟩

instance : Std.Refl (WindsBut exempt) where
  refl _ :=
    { sessions := rfl
      queued := fun t ht _ => ⟨t, ht, rfl, rfl, rfl⟩
      jobs := fun j hj => ⟨j, hj, rfl, rfl⟩
      limit := fun _ _ h => h.1 }

theorem trans (h : WindsBut exempt s s') (h' : WindsBut exempt s' s'') :
    WindsBut exempt s s'' where
  sessions := h'.sessions.trans h.sessions
  queued t'' ht'' hqueued := by
    obtain ⟨t', ht', hid', hjob', hstate'⟩ := h'.queued t'' ht'' hqueued
    obtain ⟨t, ht, hid, hjob, hstate⟩ := h.queued t' ht' (hstate' ▸ hqueued)
    exact ⟨t, ht, hid.trans hid', hjob.trans hjob', hstate.trans hstate'⟩
  jobs j hj := by
    obtain ⟨j', hj', hid, hdeadline⟩ := h.jobs j hj
    obtain ⟨j'', hj'', hid', hdeadline'⟩ := h'.jobs j' hj'
    exact ⟨j'', hj'', hid'.trans hid, hdeadline'.trans hdeadline⟩
  limit jobId hexempt ho := h.limit jobId hexempt (h'.overrun hexempt ho)

instance : IsTrans Store (WindsBut exempt) := ⟨fun _ _ _ => trans⟩

/-- A job that is not overrun need not be exempt. -/
theorem close (h : WindsBut (· = jobId) s s') (hnot : ¬ Overrun jobId s') : WindsDown s s' where
  sessions := h.sessions
  queued := h.queued
  jobs := h.jobs
  limit other _ ho := h.limit other (fun heq => hnot (heq ▸ ho)) ho

/-! ## Statements -/

/-- Stores with the same jobs, tasks and sessions. -/
theorem of_tables (hjobs : s'.jobs = s.jobs) (htasks : s'.tasks = s.tasks)
    (hsessions : s'.sessions = s.sessions) : WindsBut exempt s s' where
  sessions := hsessions
  queued t ht _ := ⟨t, htasks ▸ ht, rfl, rfl, rfl⟩
  jobs j hj := ⟨j, hjobs.symm ▸ hj, rfl, rfl⟩
  limit jobId _ ho := by
    have hat := ho.1
    unfold AtLimit at hat ⊢
    rwa [hjobs] at hat

/-- Stores that differ in the columns of some tasks. -/
theorem of_tasks {p : Task → Bool} {f : Task → Task}
    (htasks : s'.tasks.rows = s.tasks.rows.map fun t => if p t then f t else t)
    (hjobs : s'.jobs = s.jobs) (hsessions : s'.sessions = s.sessions)
    (hplace : ∀ t, (f t).id = t.id ∧ (f t).jobId = t.jobId)
    (h : ∀ t, p t = true → (f t).state.queued = true → (f t).state = t.state) :
    WindsBut exempt s s' where
  sessions := hsessions
  queued t' ht' hqueued := by
    rw [Table.mem_def, htasks] at ht'
    obtain ⟨t, ht, hrow⟩ := List.mem_map.mp ht'
    by_cases hp : p t = true
    · rw [if_pos hp] at hrow
      rw [← hrow] at hqueued ⊢
      exact ⟨t, ht, (hplace t).1.symm, (hplace t).2.symm, (h t hp hqueued).symm⟩
    · rw [if_neg hp] at hrow
      exact ⟨t, ht, by rw [hrow], by rw [hrow], by rw [hrow]⟩
  jobs j hj := ⟨j, hjobs.symm ▸ hj, rfl, rfl⟩
  limit jobId _ ho := by
    have hat := ho.1
    unfold AtLimit at hat ⊢
    rwa [hjobs] at hat

/-- Stores that differ in the columns of some jobs. -/
theorem of_jobs {p : Job → Bool} {f : Job → Job}
    (hjobs : s'.jobs.rows = s.jobs.rows.map fun j => if p j then f j else j)
    (htasks : s'.tasks = s.tasks) (hsessions : s'.sessions = s.sessions)
    (hterms : ∀ j, (f j).id = j.id ∧ (f j).deadlineAt = j.deadlineAt)
    (h : ∀ j, p j = true → ¬ exempt j.id →
      (f j).config = j.config ∧ (f j).failedCount = j.failedCount) : WindsBut exempt s s' where
  sessions := hsessions
  queued t ht _ := ⟨t, htasks ▸ ht, rfl, rfl, rfl⟩
  jobs j hj := by
    have hmem : (if p j then f j else j) ∈ s'.jobs := by
      rw [Table.mem_def, hjobs]
      exact List.mem_map_of_mem hj
    refine ⟨_, hmem, ?_⟩
    split
    · exact hterms j
    · exact ⟨rfl, rfl⟩
  limit jobId hexempt ho := by
    obtain ⟨j', hj', hid, hlimit⟩ := ho.1
    rw [Table.mem_def, hjobs] at hj'
    obtain ⟨j, hj, hrow⟩ := List.mem_map.mp hj'
    by_cases hp : p j = true
    · rw [if_pos hp] at hrow
      have hsame : j.id = jobId := by rw [← hid, ← hrow]; exact (hterms j).1.symm
      obtain ⟨hconfig, hcount⟩ := h j hp (hsame ▸ hexempt)
      rw [← hrow, hconfig, hcount] at hlimit
      exact ⟨j, hj, hsame, hlimit⟩
    · rw [if_neg hp] at hrow
      exact ⟨j, hj, hrow ▸ hid, hrow ▸ hlimit⟩

end WindsBut

section Helpers

variable {exempt : Uuid → Prop} {s s' : Store} {jobId : Uuid}

theorem ledger_winds : LedgerSteps (WindsBut exempt) := fun _ _ _ => WindsBut.of_tables rfl rfl rfl

theorem releaseLease_winds (f : FencedTask) (s : Store) : WindsBut exempt s (releaseLease f s) :=
  WindsBut.of_jobs rfl rfl rfl (fun _ => ⟨rfl, rfl⟩) fun _ _ _ => ⟨rfl, rfl⟩

theorem chargeDownload_winds (task : Task) (downloaded : ℤ) (s : Store) :
    WindsBut exempt s (chargeDownload task downloaded s) := by
  unfold chargeDownload
  split
  · exact WindsBut.of_jobs rfl rfl rfl (fun _ => ⟨rfl, rfl⟩) fun _ _ _ => ⟨rfl, rfl⟩
  · exact refl_of _ s

theorem finishAttempt_winds (now : Time) (task : Task) (outcome : String) (metadata : Metadata)
    (downloaded artifacts : ℤ) (s : Store) :
    WindsBut exempt s (finishAttempt now task outcome metadata downloaded artifacts s) :=
  WindsBut.of_tables rfl rfl rfl

/-! ## Drains -/

theorem not_queued_drain (now : Time) (jobId : Uuid) (reason : String) (s : Store) :
    hasQueued jobId (drainUnleased now jobId reason s) = false := by
  refine Table.any_eq_false.mpr fun t' ht' => ?_
  rw [drainUnleased_tasks] at ht'
  obtain ⟨t, -, hrow⟩ := Table.mem_update.mp ht'
  by_cases hp : (t.jobId = jobId && t.state.queued) = true
  · rw [if_pos hp] at hrow
    rw [← hrow]
    exact Bool.and_false _
  · rw [if_neg hp] at hrow
    rw [← hrow]
    simpa using hp

theorem drain_but (now : Time) (jobId : Uuid) (reason : String) (s : Store) :
    WindsBut (· = jobId) s (drainUnleased now jobId reason s) := by
  have htasks : WindsBut (· = jobId) s (s.updateTasks
      (fun t => t.jobId = jobId && t.state.queued) (drainTask now reason)) := by
    refine WindsBut.of_tasks rfl rfl rfl (fun _ => ⟨rfl, rfl⟩) fun t _ hqueued => ?_
    cases hqueued
  rw [drainUnleased_eq]
  refine htasks.trans (WindsBut.of_jobs rfl rfl rfl (fun _ => ⟨rfl, rfl⟩) fun j hj hother => ?_)
  exact absurd (of_decide_eq_true hj) hother

/-- A drain settles what was counted before it. -/
theorem WindsBut.drain (h : WindsBut (· = jobId) s s') (now : Time) (reason : String) :
    WindsDown s (drainUnleased now jobId reason s') := by
  apply (h.trans (drain_but now jobId reason s')).close
  intro ho
  have hqueued := ho.2
  rw [not_queued_drain] at hqueued
  cases hqueued

/-- A job whose limit has just been checked is not overrun. -/
theorem not_overrun_enforce (now : Time) (jobId : Uuid) (s : Store) :
    ¬ Overrun jobId (enforceFailureLimit now jobId s) := by
  unfold enforceFailureLimit
  cases hjob : s.job? jobId with
  | none =>
      rintro ⟨⟨j, hj, hid, -⟩, -⟩
      rw [Store.job?_eq_some.mpr ⟨hj, hid⟩] at hjob
      cases hjob
  | some job =>
      obtain ⟨hmem, hid⟩ := Store.job?_eq_some.mp hjob
      dsimp only
      split
      · rintro ⟨-, hqueued⟩
        rw [not_queued_drain] at hqueued
        cases hqueued
      · rename_i hbelow
        rintro ⟨⟨j, hj, hid', hlimit⟩, -⟩
        rw [job_eq_of_id hj hmem (hid'.trans hid.symm)] at hlimit
        exact hbelow hlimit

/-- So the check settles what was counted before it. -/
theorem WindsBut.enforce (h : WindsBut (· = jobId) s s') (now : Time) :
    WindsDown s (enforceFailureLimit now jobId s') := by
  have henforce : WindsBut (· = jobId) s' (enforceFailureLimit now jobId s') := by
    unfold enforceFailureLimit
    cases s'.job? jobId with
    | none => exact refl_of _ s'
    | some job =>
        dsimp only
        split
        · exact drain_but now jobId _ s'
        · exact refl_of _ s'
  exact (h.trans henforce).close (not_overrun_enforce now jobId s')

theorem drainUnleased_winds (now : Time) (jobId : Uuid) (reason : String) (s : Store) :
    WindsDown s (drainUnleased now jobId reason s) :=
  (refl_of (WindsBut (· = jobId)) s).drain now reason

/-! ## The end of a lease -/

theorem terminalizeTask_winds (now : Time) (f : FencedTask) {state : TaskState}
    (errorClass errorCode : Option String) (s : Store) (hstate : state.queued = false) :
    WindsBut exempt s (terminalizeTask now f state errorClass errorCode s) := by
  refine WindsBut.of_tasks rfl rfl rfl (fun _ => ⟨rfl, rfl⟩) fun t _ hqueued => ?_
  rw [show state.queued = true from hqueued] at hstate
  cases hstate

/-- A failure is counted on the job of the task only. -/
theorem terminalizeJob_winds (now : Time) (jobId : Uuid) (state : TaskState) (s : Store)
    (hfailed : state = .permanentFailed → exempt jobId) :
    WindsBut exempt s (terminalizeJob now jobId state s) := by
  refine WindsBut.of_jobs rfl rfl rfl (fun _ => ⟨rfl, rfl⟩) fun j hj hother => ?_
  have hstate : state ≠ .permanentFailed := fun hstate =>
    hother (of_decide_eq_true hj ▸ hfailed hstate)
  exact ⟨rfl, by simp [hstate]⟩

theorem terminalize_winds : ExitSteps WindsDown := by
  intro now f state errorClass errorCode s hstate
  let s₁ := terminalizeTask now f state errorClass errorCode s
  have hended : ∀ {exempt : Uuid → Prop}, (state = .permanentFailed → exempt f.task.jobId) →
      WindsBut exempt s (terminalizeJob now f.task.jobId state (releaseLease f s₁)) :=
    fun hfailed => (terminalizeTask_winds now f errorClass errorCode s hstate).trans <|
      (releaseLease_winds f s₁).trans <| terminalizeJob_winds _ _ _ _ hfailed
  have hkept : WindsDown s (if state = .permanentFailed then
      enforceFailureLimit now f.task.jobId
        (terminalizeJob now f.task.jobId state (releaseLease f s₁))
      else terminalizeJob now f.task.jobId state (releaseLease f s₁)) := by
    split
    · have hcounted : WindsBut (· = f.task.jobId) s
          (terminalizeJob now f.task.jobId state (releaseLease f s₁)) := hended fun _ => rfl
      exact hcounted.enforce now
    · rename_i hother
      exact hended fun hfailed => hother hfailed
  exact hkept.trans (finishAttempt_winds ..)

theorem failPermanently_winds (x : Txn) (f : FencedTask) (decision : FailureDecision)
    (metadata : Metadata) (s : Store) : WindsDown s (failPermanently x f decision metadata s) :=
  (terminalize_winds _ _ _ _ _ s rfl).trans <|
    (chargeDownload_winds ..).trans (finishAttempt_winds ..)

theorem rejectOverBudget_winds (x : Txn) (f : FencedTask) (metadata : Metadata) (reason : String)
    (s : Store) : WindsDown s (rejectOverBudget x f metadata reason s) :=
  (terminalize_winds _ _ _ _ _ s rfl).trans <| (chargeDownload_winds ..).trans <|
    (finishAttempt_winds ..).trans (drainUnleased_winds ..)

theorem settleCompleted_winds (x : Txn) (f : FencedTask) (metadata : Metadata)
    (downloaded artifacts : ℤ) (s : Store) :
    WindsBut exempt s (settleCompleted x f metadata downloaded artifacts s) := by
  let s₁ := s.updateTasks (fun t => t.id = f.task.id && t.leaseToken = some f.token) fun t =>
    { t.unlease with state := .succeeded, finishedAt := some x.now }
  have htask : WindsBut exempt s s₁ := by
    refine WindsBut.of_tasks rfl rfl rfl (fun _ => ⟨rfl, rfl⟩) fun t _ hqueued => ?_
    cases hqueued
  refine htask.trans ((releaseLease_winds f s₁).trans ?_)
  exact WindsBut.of_jobs rfl rfl rfl (fun _ => ⟨rfl, rfl⟩) fun _ _ _ => ⟨rfl, rfl⟩

/-- What follows the requeued row moves no work. -/
theorem requeue_winds (x : Txn) (f : FencedTask) (decision : FailureDecision) (availableAt : Time)
    (metadata : Metadata) (s : Store) :
    WindsBut exempt (requeueTask f availableAt decision.errorClass decision.errorCode s)
      (requeue x f decision availableAt metadata s) := by
  let s₁ := requeueTask f availableAt decision.errorClass decision.errorCode s
  have hcharge : WindsBut exempt (releaseLease f s₁)
      (chargeDownload f.task (actualBytes f.task metadata) (releaseLease f s₁)) :=
    chargeDownload_winds ..
  refine (releaseLease_winds f s₁).trans (hcharge.trans ?_)
  exact WindsBut.of_tables rfl rfl rfl

theorem requeueReaped_winds (x : Txn) (f : FencedTask) (s : Store) :
    WindsBut exempt (requeueTask f x.now "transport" "lease_expired" s) (requeueReaped x f s) :=
  (releaseLease_winds f _).trans (finishAttempt_winds ..)

theorem cancelQueued_winds (now : Time) (jobId : Uuid) (s : Store) :
    WindsBut exempt s (cancelQueued now jobId s) := by
  refine WindsBut.of_tasks rfl rfl rfl (fun _ => ⟨rfl, rfl⟩) fun t _ hqueued => ?_
  cases hqueued

theorem cancelJob_winds (now : Time) (jobId : Uuid) (cancelled : ℤ) (s : Store) :
    WindsBut exempt s (cancelJob now jobId cancelled s) :=
  WindsBut.of_jobs rfl rfl rfl (fun _ => ⟨rfl, rfl⟩) fun _ _ _ => ⟨rfl, rfl⟩

/-! ## The end of a session -/

theorem freeLease_winds (task : Task) (s : Store) : WindsBut exempt s (freeLease task s) :=
  WindsBut.of_jobs rfl rfl rfl (fun _ => ⟨rfl, rfl⟩) fun _ _ _ => ⟨rfl, rfl⟩

/-- A session that expires counts a failure; one that is cancelled does not. -/
theorem endSessionTask_winds (now : Time) (task : Task) (reason : CloseReason) (s : Store)
    (hexempt : reason.expires = true → exempt task.jobId) :
    WindsBut exempt s (endSessionTask now task reason s) := by
  have htask : WindsBut exempt s (endAttempt now task reason (endTask now task reason s)) := by
    refine WindsBut.of_tasks rfl rfl rfl (fun _ => ⟨rfl, rfl⟩) fun t _ hqueued => ?_
    have hended : reason.task.queued = true := hqueued
    rw [reason.not_queued_task] at hended
    cases hended
  refine htask.trans (WindsBut.of_jobs rfl rfl rfl (fun _ => ⟨rfl, rfl⟩) fun j hj hother => ?_)
  have hreason : ¬ reason.expires = true := fun hreason =>
    hother (of_decide_eq_true hj ▸ hexempt hreason)
  exact ⟨rfl, by simp [hreason]⟩

theorem closeTask_winds (now : Time) (task : Task) (reason : CloseReason) (owned : Bool) (s : Store)
    (hexempt : reason.expires = true → exempt task.jobId) :
    WindsBut exempt s (closeTask now task reason owned s) := by
  unfold closeTask
  split
  · exact endSessionTask_winds now task reason s hexempt
  · split
    · exact (freeLease_winds task s).trans (endSessionTask_winds now task reason _ hexempt)
    · exact refl_of _ s

end Helpers

/-! ## Transactions that queue nothing -/

section Transactions

variable {url : UrlIdentity} {exempt : Uuid → Prop}

theorem activeLease_winds (x : Txn) (taskId token : Uuid) :
    Steps WindsDown (activeLease x taskId token) :=
  activeLease_steps ledger_winds terminalize_winds x taskId token

theorem extendTask_winds (now : Time) (p : Task → Bool) (s : Store) :
    WindsBut exempt s (extendTask now p s) :=
  WindsBut.of_tasks rfl rfl rfl (fun _ => ⟨rfl, rfl⟩) fun _ _ _ => rfl

theorem deferTask_winds (taskId : Uuid) (until_ : Time) (s : Store) :
    WindsBut exempt s (deferTask taskId until_ s) :=
  WindsBut.of_tasks rfl rfl rfl (fun _ => ⟨rfl, rfl⟩) fun _ _ _ => rfl

theorem countNavigation_winds (jobId : Uuid) (s : Store) :
    WindsBut exempt s (countNavigation jobId s) :=
  WindsBut.of_jobs rfl rfl rfl (fun _ => ⟨rfl, rfl⟩) fun _ _ _ => ⟨rfl, rfl⟩

theorem heartbeat_winds (x : Txn) (taskId token : Uuid) :
    Steps WindsDown (heartbeat x taskId token) := by
  unfold heartbeat
  refine (activeLease_winds ..).bind fun found => ?_
  cases found with
  | none => exact Steps.pure _
  | some f =>
      refine exec_bind_steps (extendTask_winds _ _) ?_
      exact exec_bind_steps (fun _ => WindsBut.of_tables rfl rfl rfl) (Steps.read _)

theorem reserveBrowserNavigation_winds (x : Txn) (taskId token : Uuid) :
    Steps WindsDown (reserveBrowserNavigation x taskId token) := by
  unfold reserveBrowserNavigation
  refine (activeLease_winds ..).bind fun found => ?_
  cases found with
  | none => exact Steps.pure _
  | some f =>
      refine Steps.read_bind fun _ => ?_
      exact exec_bind_steps (countNavigation_winds f.task.jobId) (Steps.pure _)

theorem failTask_winds (x : Txn) (taskId token : Uuid) (decision : FailureDecision)
    (metadata : Metadata) : Steps WindsDown (failTask x taskId token decision metadata) := by
  unfold failTask
  refine (activeLease_winds ..).bind fun found => ?_
  cases found with
  | none => exact Steps.pure _
  | some f => exact exec_bind_steps (failPermanently_winds x f decision metadata) (Steps.pure _)

theorem blockRobots_winds (x : Txn) (taskId token : Uuid) (code : String) :
    Steps WindsDown (blockRobots x taskId token code) := by
  unfold blockRobots
  refine (activeLease_winds ..).bind fun found => ?_
  cases found with
  | none => exact Steps.pure _
  | some f =>
      exact exec_bind_steps (fun s => terminalize_winds _ _ _ _ _ s rfl) (Steps.pure _)

theorem finalizeJob_winds (now : Time) (job : Job) (s : Store) :
    WindsDown s (finalizeJob now job s) := by
  have hexpire : WindsDown s (expireQueued now job.id s) := by
    unfold expireQueued
    dsimp only
    split
    · refine (cancelQueued_winds now job.id s).trans ?_
      exact WindsBut.of_jobs rfl rfl rfl (fun _ => ⟨rfl, rfl⟩) fun _ _ _ => ⟨rfl, rfl⟩
    · exact cancelQueued_winds now job.id s
  have hclose : ∀ expired s', WindsDown s' (closeJob now job expired s') := fun _ _ =>
    WindsBut.of_jobs rfl rfl rfl (fun _ => ⟨rfl, rfl⟩) fun _ _ _ => ⟨rfl, rfl⟩
  have hfirst : WindsDown s (expireStep now job s) := by
    unfold expireStep
    split
    · exact hexpire
    · exact refl_of _ s
  rw [finalizeJob_eq]
  split
  · exact hfirst
  · exact hfirst.trans (hclose ..)

theorem finalizeJobs_winds (x : Txn) (s : Store) : WindsDown s (finalizeJobs x s) := by
  unfold finalizeJobs
  generalize (s.jobs.select fun j => !j.state.terminal && !x.lockedJob j.id) = jobs
  induction jobs generalizing s with
  | nil => exact refl_of _ s
  | cons job jobs ih =>
      rw [List.foldl_cons]
      exact (finalizeJob_winds x.now job s).trans (ih _)

/-! ## Leases -/

theorem reserveBudget_winds (jobId : Uuid) (bytes artifacts : ℤ) (s : Store) :
    WindsBut exempt s (reserveBudget jobId bytes artifacts s) :=
  WindsBut.of_jobs rfl rfl rfl (fun _ => ⟨rfl, rfl⟩) fun _ _ _ => ⟨rfl, rfl⟩

theorem startJob_winds (now : Time) (jobId : Uuid) (s : Store) :
    WindsBut exempt s (startJob now jobId s) :=
  WindsBut.of_jobs rfl rfl rfl (fun _ => ⟨rfl, rfl⟩) fun _ _ _ => ⟨rfl, rfl⟩

/-- A leased task is not queued. -/
theorem lease_winds {p : Task → Bool} {f : Task → Task} (hf : ∀ t, Keyed.key (f t) = Keyed.key t)
    (hleased : ∀ t, (f t).state = .leased) (s : Store) :
    WindsBut exempt s (s.updateTasks p f hf) := by
  refine WindsBut.of_tasks rfl rfl rfl (fun t => ?_) fun t _ hqueued => ?_
  · have hkey : ((f t).id, (f t).jobId, (f t).urlHash) = (t.id, t.jobId, t.urlHash) := hf t
    simp only [Prod.mk.injEq] at hkey
    exact ⟨hkey.1, hkey.2.1⟩
  · rw [hleased t] at hqueued
    cases hqueued

theorem insertOriginLease_winds {l : OriginLease} (s s' : Store)
    (h : s.insertOriginLease l = some s') : WindsBut exempt s s' := by
  obtain ⟨T, -, rfl⟩ := Option.map_eq_some_iff.mp h
  exact WindsBut.of_tables rfl rfl rfl

theorem grantLease_winds (x : Txn) (workerId : String) (task : Task) (job : Job)
    (bytes artifacts : ℤ) : Steps WindsDown (grantLease x workerId task job bytes artifacts) := by
  unfold grantLease
  refine exec_bind_steps (reserveBudget_winds _ _ _) <| exec_bind_steps (startJob_winds _ _) ?_
  refine exec_bind_steps (lease_winds _ fun _ => rfl) ?_
  refine attempt_bind_steps (insertAttempt_steps ledger_winds) ?_
  refine attempt_bind_steps insertOriginLease_winds ?_
  exact exec_bind_steps (fun _ => WindsBut.of_tables rfl rfl rfl) (Steps.pure _)

theorem ensureOrigin_winds (now : Time) (originKey : String) (s : Store) :
    WindsBut exempt s (s.ensureOrigin now originKey) := by
  unfold Store.ensureOrigin
  split
  · exact WindsBut.of_tables rfl rfl rfl
  · exact refl_of _ s

theorem claimPaced_winds (x : Txn) (workerId : String) (task : Task) (job : Job)
    (origin : Origin) : Steps WindsDown (claimPaced x workerId task job origin) := by
  unfold claimPaced
  refine Steps.ite (exec_bind_steps (deferTask_winds _ _) (Steps.pure _)) ?_
  refine Steps.read_bind fun _ => Steps.ite (Steps.pure _) (Steps.ite ?_ ?_)
  · exact exec_bind_steps (drainUnleased_winds _ _ _) (Steps.pure _)
  · exact (grantLease_winds ..).map

theorem claimTask_winds (x : Txn) (workerId : String) (capabilities : List String) :
    Steps WindsDown (claimTask x workerId capabilities) := by
  unfold claimTask
  refine Steps.read_bind fun found => ?_
  cases found with
  | none => exact Steps.pure _
  | some task =>
      refine Steps.read_bind fun found => ?_
      cases found with
      | none => exact Steps.pure _
      | some job =>
          refine Steps.ite (Steps.pure _) ?_
          unfold claimLocked
          refine exec_bind_steps (ensureOrigin_winds _ _) (Steps.read_bind fun found => ?_)
          cases found with
          | none => exact Steps.pure _
          | some origin =>
              dsimp only
              split
              · exact exec_bind_steps (deferTask_winds _ _) (Steps.pure _)
              · refine exec_bind_steps (fun s => ?_) (claimPaced_winds ..)
                split
                · exact WindsBut.of_tables rfl rfl rfl
                · exact refl_of _ s

theorem resumeLiveSession_winds (x : Txn) (id : Uuid) (workerId : String) :
    Steps WindsDown (resumeLiveSession x id workerId) := by
  unfold resumeLiveSession
  refine Steps.read_bind fun found => ?_
  cases found with
  | none => exact Steps.pure _
  | some session =>
      refine Steps.read_bind fun found => ?_
      cases found with
      | none => exact Steps.pure _
      | some task =>
          refine Steps.read_bind fun found => ?_
          cases found with
          | none => exact Steps.pure _
          | some job =>
              refine Steps.ite (Steps.pure _) (Steps.read_bind fun _ => Steps.ite (Steps.pure _) ?_)
              refine Steps.ite (Steps.pure _) (Steps.map ?_)
              unfold grantResumed
              refine exec_bind_steps (reserveBudget_winds _ _ _) ?_
              refine exec_bind_steps (lease_winds _ fun _ => rfl) ?_
              exact attempt_bind_steps insertOriginLease_winds (Steps.pure _)

/-! ## The worker protocol -/

theorem register_winds (role : String) (protocol : ℤ) (capabilities : List String) :
    Steps WindsDown (WorkerApi.register role protocol capabilities) := by
  unfold WorkerApi.register
  refine Steps.read_bind fun found => ?_
  cases found with
  | none => exact Steps.pure _
  | some worker =>
      refine Steps.ite (Steps.pure _) (Steps.ite ?_ ?_)
      · exact exec_bind_steps (fun _ => WindsBut.of_tables rfl rfl rfl) (Steps.pure _)
      · exact exec_bind_steps (fun _ => WindsBut.of_tables rfl rfl rfl) (Steps.pure _)

theorem drain_winds (role : String) : Steps WindsDown (WorkerApi.drain role) := by
  unfold WorkerApi.drain
  refine Steps.read_bind fun _ => ?_
  exact exec_bind_steps (fun _ => WindsBut.of_tables rfl rfl rfl) (Steps.pure _)

theorem remote_grantLease_winds (x : Txn) (worker : Worker) (task : Task) (job : Job)
    (bytes artifacts : ℤ) :
    Steps WindsDown (WorkerApi.grantLease x worker task job bytes artifacts) := by
  unfold WorkerApi.grantLease
  refine exec_bind_steps (reserveBudget_winds _ _ _) <| exec_bind_steps (startJob_winds _ _) ?_
  refine exec_bind_steps (lease_winds _ fun _ => rfl) ?_
  refine attempt_bind_steps insertOriginLease_winds ?_
  refine exec_bind_steps (fun _ => WindsBut.of_tables rfl rfl rfl) ?_
  exact attempt_bind_steps (insertAttempt_steps ledger_winds) (Steps.pure _)

theorem remote_claimPaced_winds (x : Txn) (worker : Worker) (task : Task) (job : Job)
    (origin : Origin) : Steps WindsDown (WorkerApi.claimPaced x worker task job origin) := by
  unfold WorkerApi.claimPaced
  refine Steps.ite (Steps.pure _) (Steps.read_bind fun _ => Steps.ite (Steps.pure _) ?_)
  exact Steps.ite (Steps.pure _) (remote_grantLease_winds ..).map

theorem remote_claim_winds (x : Txn) (role : String) (capabilities : List String) :
    Steps WindsDown (WorkerApi.claim x role capabilities) := by
  unfold WorkerApi.claim
  refine (identity_steps ..).bind fun worker => Steps.ite (Steps.raise _) ?_
  refine Steps.read_bind fun found => ?_
  cases found with
  | none => exact Steps.pure _
  | some task =>
      refine Steps.read_bind fun found => ?_
      cases found with
      | none => exact Steps.pure _
      | some job =>
          refine Steps.read_bind fun found => ?_
          cases found with
          | none => exact Steps.pure _
          | some origin =>
              dsimp only
              unfold WorkerApi.claimLocked
              dsimp only
              split
              · exact exec_bind_steps (deferTask_winds _ _) (Steps.pure _)
              · exact Steps.ite (Steps.raise _) (remote_claimPaced_winds ..)

theorem remote_heartbeat_winds (x : Txn) (role : String) (taskId token : Uuid) :
    Steps WindsDown (WorkerApi.heartbeat x role taskId token) := by
  unfold WorkerApi.heartbeat
  refine (identity_steps ..).bind fun worker => Steps.read_bind fun found => ?_
  cases found with
  | none => exact Steps.pure _
  | some f =>
      refine exec_bind_steps (extendTask_winds _ _) ?_
      exact exec_bind_steps (fun _ => WindsBut.of_tables rfl rfl rfl) (Steps.read _)

theorem remote_reserveBrowserNavigation_winds (x : Txn) (role : String) (taskId token : Uuid) :
    Steps WindsDown (WorkerApi.reserveBrowserNavigation x role taskId token) := by
  unfold WorkerApi.reserveBrowserNavigation
  refine (identity_steps ..).bind fun worker => Steps.read_bind fun found => ?_
  cases found with
  | none => exact Steps.pure _
  | some f =>
      refine Steps.read_bind fun _ => ?_
      exact exec_bind_steps (countNavigation_winds f.task.jobId) (Steps.pure _)

theorem remote_storeRobots_winds (x : Txn) (role originKey body : String) :
    Steps WindsDown (WorkerApi.storeRobots x role originKey body) := by
  unfold WorkerApi.storeRobots
  refine (identity_steps ..).bind fun worker => Steps.read_bind fun _ => Steps.ite ?_ (Steps.pure _)
  refine Steps.read_bind fun _ => ?_
  exact exec_bind_steps (fun _ => WindsBut.of_tables rfl rfl rfl) (Steps.pure _)

/-- A settled task keeps its place. -/
theorem settleRow_winds (taskId : Uuid) (set : Task → Task)
    (hset : ∀ t, Keyed.key (set t) = Keyed.key t) (s : Store)
    (h : ∀ t, (set t).state.queued = false) :
    WindsBut exempt s (WorkerApi.settleRow taskId set hset s) := by
  refine WindsBut.of_tasks rfl rfl rfl (fun t => ?_) fun t _ hqueued => ?_
  · have hkey : ((set t.unlease).id, (set t.unlease).jobId, (set t.unlease).urlHash) =
        (t.id, t.jobId, t.urlHash) := hset t.unlease
    simp only [Prod.mk.injEq] at hkey
    exact ⟨hkey.1, hkey.2.1⟩
  · rw [h t.unlease] at hqueued
    cases hqueued

/-- Its job counts it. -/
theorem WindsBut.settleRows {s s' : Store} (hs : WindsBut exempt s s') (task : Task) (token : Uuid)
    {count : Job → Job} {hcount : ∀ j, Keyed.key (count j) = Keyed.key j}
    (hdeadline : ∀ j, (count j).deadlineAt = j.deadlineAt)
    (h : ¬ exempt task.jobId → ∀ j, (count j).config = j.config ∧
      (count j).failedCount = j.failedCount) :
    WindsBut exempt s (WorkerApi.settleRows task token count hcount s') := by
  refine hs.trans ?_
  refine WindsBut.of_jobs rfl rfl rfl (fun j => ⟨?_, hdeadline _⟩) fun j hj hother => ?_
  · exact congrArg Prod.fst (hcount _)
  · exact h (of_decide_eq_true hj ▸ hother) _

theorem remote_blockRobots_winds (x : Txn) (role : String) (taskId token : Uuid) (code : String) :
    Steps WindsDown (WorkerApi.blockRobots x role taskId token code) := by
  unfold WorkerApi.blockRobots
  refine (identity_steps ..).bind fun worker => Steps.read_bind fun found => ?_
  cases found with
  | none => exact Steps.pure _
  | some f =>
      refine exec_bind_steps (fun s => settleRow_winds _ _ _ s fun _ => rfl) ?_
      refine exec_bind_steps (fun s => WindsBut.settleRows (refl_of _ s) _ _ (fun _ => rfl)
        fun _ _ => ⟨rfl, rfl⟩) ?_
      exact exec_bind_steps (fun _ => WindsBut.of_tables rfl rfl rfl) (Steps.pure _)

/-- Its attempt is closed. -/
theorem WindsBut.settleAttempt {s s' : Store} (hs : WindsBut exempt s s') (now : Time)
    (task : Task) (outcome : String) (errorCode : Option String) (cost : Cost) :
    WindsBut exempt s (WorkerApi.settleAttempt now task outcome errorCode cost s') :=
  hs.trans (WindsBut.of_tables rfl rfl rfl)

theorem failRows_winds (x : Txn) (task : Task) (token : Uuid) (errorClass errorCode : String)
    (used : ℤ) (s : Store) (hexempt : exempt task.jobId) :
    WindsBut exempt s (WorkerApi.failRows x task token errorClass errorCode used s) := by
  apply WindsBut.settleAttempt
  apply WindsBut.settleRows
  · exact settleRow_winds _ _ _ s fun _ => rfl
  · exact fun _ => rfl
  · exact fun hnot => absurd hexempt hnot

theorem completeRows_winds (x : Txn) (f : FencedTask) (used size : ℤ) (s : Store) :
    WindsBut exempt s (WorkerApi.completeRows x f used size s) := by
  have hrows : WindsBut exempt s <| WorkerApi.settleRows f.task f.token
      (WorkerApi.countSucceeded used size) (fun _ => rfl) <|
      WorkerApi.settleRow f.task.id
        (fun t => { t with state := .succeeded, finishedAt := some x.now }) (fun _ => rfl) s := by
    apply WindsBut.settleRows
    · exact settleRow_winds _ _ _ s fun _ => rfl
    · exact fun _ => rfl
    · exact fun _ _ => ⟨rfl, rfl⟩
  exact hrows.trans (WindsBut.of_tables rfl rfl rfl)

/-- A worker puts a row back, and what follows moves no work. -/
theorem requeueRows_winds (x : Txn) (task : Task) (token : Uuid) (errorClass errorCode : String)
    (availableAt : Time) (used : ℤ) (s : Store) :
    ∃ set hset, (∀ t : Task, (set t).state = .retryWait) ∧
      WindsDown (WorkerApi.settleRow task.id set hset s)
        (WorkerApi.requeueRows x task token errorClass errorCode availableAt used s) := by
  refine ⟨fun t =>
    { t with
      state := .retryWait, availableAt, errorClass := some errorClass
      errorCode := some errorCode }, fun _ => rfl, fun _ => rfl, ?_⟩
  have hrows : ∀ s, WindsDown s (WorkerApi.settleRows task token (WorkerApi.charge used)
      (fun _ => rfl) s) := fun s =>
    WindsBut.settleRows (refl_of _ s) task token (fun _ => rfl) fun _ _ => ⟨rfl, rfl⟩
  exact (hrows _).trans (WindsBut.of_tables rfl rfl rfl)

theorem releaseRows_winds (x : Txn) (task : Task) (token : Uuid) (s : Store) :
    ∃ set hset, (∀ t : Task, (set t).state = .retryWait) ∧
      WindsDown (WorkerApi.settleRow task.id set hset s)
        (WorkerApi.releaseRows x task token s) := by
  refine ⟨fun t =>
    { t with
      state := .retryWait, availableAt := x.now, errorClass := some "transport"
      errorCode := some "worker_released" }, fun _ => rfl, fun _ => rfl, ?_⟩
  apply WindsBut.settleAttempt
  exact WindsBut.settleRows (refl_of _ _) task token (fun _ => rfl) fun _ _ => ⟨rfl, rfl⟩

/-- The function raises before it grants anything. -/
theorem remote_resumeLiveSession_winds (x : Txn) (role : String) (id : Uuid) :
    Steps WindsDown (WorkerApi.resumeLiveSession x role id) := by
  unfold WorkerApi.resumeLiveSession
  refine (identity_steps ..).bind fun worker => Steps.read_bind fun found => ?_
  cases found with
  | none => exact Steps.pure _
  | some session =>
      refine Steps.read_bind fun found => ?_
      cases found with
      | none => exact Steps.pure _
      | some task => exact Steps.ite (Steps.pure _) (Steps.raise _)

end Transactions

/-! ## Every such call -/

end Limits

/-- The calls of a worker that may queue work, count a failure without a look
at the limit, or move a session. -/
def RemoteCall.moves : RemoteCall → Bool
  | .fail .. | .retry .. | .release .. | .complete .. | .startLiveSession .. | .waitForInput ..
  | .touchLiveSession .. | .closeLiveSession .. | .finishLiveSession .. => true
  | _ => false

/-- As `RemoteCall.moves`, for every call. -/
def Call.moves : Call → Bool
  | .submitJob .. | .populateRetries .. | .requestCancel .. | .completeTask .. | .retryTask ..
  | .reapExpiredLeases | .waitForInputLocal .. | .requestResume .. | .touchSession ..
  | .closeCompleted .. | .closeSession .. | .expireDue => true
  | .remote _ call => call.moves
  | _ => false

namespace Limits

theorem remote_winds {x : Txn} {role : String} {call : RemoteCall} (h : call.moves = false) :
    Steps WindsDown (call.body x role) := by
  cases call with
  | register protocol capabilities => exact (register_winds ..).map
  | drain => exact drain_winds ..
  | claim capabilities => exact (remote_claim_winds ..).map
  | heartbeat taskId token => exact remote_heartbeat_winds ..
  | reserveBrowserNavigation taskId token => exact remote_reserveBrowserNavigation_winds ..
  | storeRobots originKey body => exact remote_storeRobots_winds ..
  | blockRobots taskId token code => exact remote_blockRobots_winds ..
  | resumeLiveSession id => exact (remote_resumeLiveSession_winds ..).map
  | reserveProviderAttempt taskId token route reserved =>
      exact (reserveProviderAttempt_steps ledger_winds ..).map
  | finishProviderAttempt attemptId token outcome actual estimated =>
      exact finishProviderAttempt_steps ledger_winds ..
  | _ => cases h

theorem call_winds {url : UrlIdentity} {x : Txn} {call : Call} (h : call.moves = false) :
    Steps WindsDown (call.body url x) := by
  have haccepted : ∀ {f : Store → Store}, (∀ s, WindsDown s (f s)) →
      Steps WindsDown (accepted f) := fun hf => exec_bind_steps hf (Steps.pure _)
  cases call with
  | finalizeJobs => exact haccepted (finalizeJobs_winds x)
  | claimTask workerId capabilities => exact (claimTask_winds ..).map
  | heartbeat taskId token => exact heartbeat_winds ..
  | reserveBrowserNavigation taskId token => exact reserveBrowserNavigation_winds ..
  | failTask taskId token decision metadata => exact failTask_winds ..
  | blockRobots taskId token code => exact blockRobots_winds ..
  | storeRobots originKey body => exact haccepted fun _ => WindsBut.of_tables rfl rfl rfl
  | reserveAcquisitionAttempt taskId token route reservedCost =>
      exact (reserveAcquisitionAttempt_steps ledger_winds terminalize_winds ..).map
  | finishAcquisitionAttempt attemptId token outcome actualCost costEstimated =>
      exact finishAcquisitionAttempt_steps ledger_winds terminalize_winds ..
  | resumeLiveSession id workerId => exact (resumeLiveSession_winds ..).map
  | remote role call => exact remote_winds h
  | environment workers proxyLeases => exact haccepted fun _ => WindsBut.of_tables rfl rfl rfl
  | _ => cases h

/-- A call that moves nothing winds down. -/
theorem step_winds {url : UrlIdentity} {r : Request} (h : r.call.moves = false) (s : Store) :
    WindsDown s (step url r s) := (call_winds h).committed s

/-! ## Work that one job gains -/

/-- Work is queued in one job only, and no job comes closer to its limit. -/
structure QueuesIn (jobId : Uuid) (s s' : Store) : Prop where
  limit : ∀ other, AtLimit other s' → AtLimit other s
  queued : ∀ t' ∈ s'.tasks, t'.state.queued = true → t'.jobId = jobId ∨
    ∃ t ∈ s.tasks, t.jobId = t'.jobId ∧ t.state.queued = true

namespace QueuesIn

variable {jobId : Uuid} {s s' s'' : Store}

instance : Std.Refl (QueuesIn jobId) :=
  ⟨fun _ => ⟨fun _ h => h, fun t ht hqueued => Or.inr ⟨t, ht, rfl, hqueued⟩⟩⟩

instance : IsTrans Store (QueuesIn jobId) where
  trans s s' s'' h h' := by
    refine ⟨fun other hlimit => h.limit other (h'.limit other hlimit), fun t'' ht'' hqueued => ?_⟩
    rcases h'.queued t'' ht'' hqueued with hjob | ⟨t', ht', hjob', hqueued'⟩
    · exact Or.inl hjob
    · rcases h.queued t' ht' hqueued' with hjob | ⟨t, ht, hjob, hqueued⟩
      · exact Or.inl (hjob'.symm.trans hjob)
      · exact Or.inr ⟨t, ht, hjob.trans hjob', hqueued⟩

/-- A job below its limit may gain work. -/
theorem shrinks (h : QueuesIn jobId s s') (hfree : ¬ AtLimit jobId s) : Shrinks Overrun s s' := by
  rintro other ⟨hlimit, hqueued⟩
  have hat := h.limit other hlimit
  refine ⟨hat, ?_⟩
  obtain ⟨t', ht', hp⟩ := Table.any_eq_true.mp hqueued
  simp only [Bool.and_eq_true, decide_eq_true_eq] at hp
  rcases h.queued t' ht' hp.2 with hjob | ⟨t, ht, hjob, hstate⟩
  · rw [← hp.1, hjob] at hat
    exact absurd hat hfree
  · refine Table.any_eq_true.mpr ⟨t, ht, ?_⟩
    simp only [Bool.and_eq_true, decide_eq_true_eq]
    exact ⟨hjob.trans hp.1, hstate⟩

/-- Stores with the same jobs. -/
theorem of_tasks (hjobs : s'.jobs = s.jobs)
    (hqueued : ∀ t' ∈ s'.tasks, t'.state.queued = true → t'.jobId = jobId ∨
      ∃ t ∈ s.tasks, t.jobId = t'.jobId ∧ t.state.queued = true) : QueuesIn jobId s s' where
  limit other hlimit := by
    unfold AtLimit at hlimit ⊢
    rwa [hjobs] at hlimit
  queued := hqueued

/-- Stores that differ in columns of jobs other than their failures. -/
theorem of_jobs {p : Job → Bool} {f : Job → Job}
    (hjobs : s'.jobs.rows = s.jobs.rows.map fun j => if p j then f j else j)
    (htasks : s'.tasks = s.tasks)
    (hf : ∀ j, (f j).id = j.id ∧ (f j).config = j.config ∧ (f j).failedCount = j.failedCount) :
    QueuesIn jobId s s' where
  limit other hlimit := by
    obtain ⟨j', hj', hid, hlimit⟩ := hlimit
    rw [Table.mem_def, hjobs] at hj'
    obtain ⟨j, hj, hrow⟩ := List.mem_map.mp hj'
    by_cases hp : p j = true
    · rw [if_pos hp] at hrow
      obtain ⟨hsame, hconfig, hcount⟩ := hf j
      rw [← hrow, hconfig, hcount] at hlimit
      exact ⟨j, hj, hsame.symm.trans (hrow ▸ hid), hlimit⟩
    · rw [if_neg hp] at hrow
      exact ⟨j, hj, hrow ▸ hid, hrow ▸ hlimit⟩
  queued t ht hqueued := Or.inr ⟨t, htasks ▸ ht, rfl, hqueued⟩

/-- The rows of one task, put back. -/
theorem of_task {p : Task → Bool} {f : Task → Task} {task : Task}
    (htasks : s'.tasks.rows = s.tasks.rows.map fun t => if p t then f t else t)
    (hjobs : s'.jobs = s.jobs) (htask : task ∈ s.tasks) (hp : ∀ t, p t = true → t.id = task.id)
    (hf : ∀ t, (f t).jobId = t.jobId) : QueuesIn task.jobId s s' := by
  refine of_tasks hjobs fun t' ht' hqueued => ?_
  rw [Table.mem_def, htasks] at ht'
  obtain ⟨t, ht, hrow⟩ := List.mem_map.mp ht'
  by_cases hpt : p t = true
  · rw [if_pos hpt] at hrow
    left
    rw [← hrow, hf, task_eq_of_id ht htask (hp t hpt)]
  · rw [if_neg hpt] at hrow
    exact Or.inr ⟨t, ht, by rw [hrow], hrow ▸ hqueued⟩

end QueuesIn

theorem requeueTask_queues {f : FencedTask} {s : Store} (hf : f.task ∈ s.tasks)
    (availableAt : Time) (errorClass errorCode : String) :
    QueuesIn f.task.jobId s (requeueTask f availableAt errorClass errorCode s) := by
  refine QueuesIn.of_task rfl rfl hf (fun t hp => ?_) fun _ => rfl
  simp only [Bool.and_eq_true, decide_eq_true_eq] at hp
  exact hp.1

theorem releaseLease_queues {jobId : Uuid} (f : FencedTask) (s : Store) :
    QueuesIn jobId s (releaseLease f s) :=
  QueuesIn.of_jobs rfl rfl fun _ => ⟨rfl, rfl, rfl⟩

theorem requeueReaped_queues {x : Txn} {f : FencedTask} {s : Store} (hf : f.task ∈ s.tasks) :
    QueuesIn f.task.jobId s (requeueReaped x f s) := by
  refine trans_of _ (requeueTask_queues hf x.now "transport" "lease_expired") ?_
  refine trans_of _ (releaseLease_queues f _) ?_
  exact QueuesIn.of_tasks rfl fun t ht hqueued => Or.inr ⟨t, ht, rfl, hqueued⟩

/-- What winds down leaves no job overrun that was not. -/
theorem WindsBut.shrinks {s s' : Store} (h : WindsDown s s') : Shrinks Overrun s s' :=
  fun _ ho => h.overrun (fun hfalse => hfalse) ho

/-- Stores with the same jobs and tasks. -/
theorem shrinks_of_tables {s s' : Store} (hjobs : s'.jobs = s.jobs) (htasks : s'.tasks = s.tasks) :
    Shrinks Overrun s s' := by
  intro jobId ho
  unfold Overrun AtLimit Protocol.hasQueued at ho ⊢
  rwa [hjobs, htasks] at ho

end Limits

end CrawlTrove
