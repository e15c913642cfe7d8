import CrawlTrove.Claiming.Cases
import CrawlTrove.Lifecycle.Helpers
import CrawlTrove.Lifecycle.Refinement
import CrawlTrove.Protocol.Failure

/-!
# Drains for budget

`claim_task` and `complete_task` end the queued tasks of a job for want of
budget. The claim looks at what outstanding reservations leave, the completion
at what the lease of one page reserved; neither asks what the job itself has
left. `budget_drains_iff` says when that makes no difference.
-/

namespace CrawlTrove

open Relational Transaction

open Lifecycle Protocol

/-- What the job may still download, were all reservations given back. -/
def Job.ownBytes (j : Job) : ℤ := j.maxBytes - j.downloadedBytes

/-- As `Job.ownBytes`, for artifacts. -/
def Job.ownArtifacts (j : Job) : ℤ := j.maxArtifactBytes - j.artifactBytes

/-- The bytes and artifact bytes a result reports. -/
def TaskResult.sizes (result : TaskResult) : ℤ × ℤ :=
  ((reportedBytes result.metadata).1,
    result.markdown.utf8ByteSize + (reportedBytes result.metadata).2)

namespace Claiming

/-- The task ended for want of this budget. -/
def EndedFor (reason : String) (t : Task) : Prop :=
  t.state = .permanentFailed ∧ t.errorClass = some "budget" ∧ t.errorCode = some reason

/-- Queued work of the job ended for want of this budget. -/
def DrainedFor (reason : String) (jobId : Uuid) (s s' : Store) : Prop :=
  ∃ t ∈ s.tasks, t.jobId = jobId ∧ t.state.queued = true ∧
    ∃ t' ∈ s'.tasks, t'.id = t.id ∧ EndedFor reason t'

/-- The least a request needs of both budgets: a claim something at all, a
result its size. -/
def needs : Call → Option (ℤ × ℤ)
  | .claimTask .. => some (1, 1)
  | .completeTask _ _ result => some result.sizes
  | _ => none

/-- A job that the request drains has less left than the request needs. -/
def Justified (url : UrlIdentity) (r : Request) (s : Store) : Prop :=
  ∀ need ∈ needs r.call, ∀ j ∈ s.jobs,
    (DrainedFor "byte_budget_exhausted" j.id s (step url r s) → j.ownBytes < need.1) ∧
      (DrainedFor "artifact_budget_exhausted" j.id s (step url r s) → j.ownArtifacts < need.2)

/-- The claim would drain a job only once the job itself has nothing left. -/
def ClaimSpends (now : Time) (s : Store) (t : Task) (j : Job) : Prop :=
  ¬ Blocked now (originFor now t.originKey s) → s.originLeased t.originKey = false →
    (j.remainingBytes ≤ 0 → j.ownBytes ≤ 0) ∧
      (0 < j.remainingBytes → j.remainingArtifacts ≤ 0 → j.ownArtifacts ≤ 0)

/-- A result over its lease's allowance would drain queued siblings only where
it is over what the job has left. -/
def ResultSpends (f : FencedTask) (sizes : ℤ × ℤ) (s : Store) : Prop :=
  hasQueued f.task.jobId s = true → f.job.failedCount + 1 < f.job.config.maxFailures →
    (f.task.byteBudgetReserved < sizes.1 → f.job.ownBytes < sizes.1) ∧
      (sizes.1 ≤ f.task.byteBudgetReserved → f.task.artifactBudgetReserved < sizes.2 →
        f.job.ownArtifacts < sizes.2)

/-- The request compares with the job's own budget, or as if it did. -/
def SpendsOwn (r : Request) (s : Store) : Prop :=
  match r.call with
  | .claimTask _ capabilities => ∀ t j, candidate r.txn capabilities s = some (t, j) →
      ClaimSpends r.txn.now s t j
  | .completeTask taskId token result => ∀ f, s.fencedTask taskId token = some f →
      Protocol.Current r.txn.now f → ResultSpends f result.sizes s
  | _ => True

/-! ## Requests that drain nothing for budget -/

/-- What ended for want of this budget had ended so before. -/
def EndsNone (reason : String) (s s' : Store) : Prop :=
  ∀ t' ∈ s'.tasks, EndedFor reason t' → ∃ t ∈ s.tasks, t.id = t'.id ∧ EndedFor reason t

namespace EndsNone

variable {reason : String} {s s' : Store} {jobId : Uuid}

instance : Std.Refl (EndsNone reason) := ⟨fun _ t ht hended => ⟨t, ht, rfl, hended⟩⟩

instance : IsTrans Store (EndsNone reason) where
  trans _ _ _ h h' t'' ht'' hended := by
    obtain ⟨t', ht', hid', hended'⟩ := h' t'' ht'' hended
    obtain ⟨t, ht, hid, hbefore⟩ := h t' ht' hended'
    exact ⟨t, ht, hid.trans hid', hbefore⟩

theorem of_tasks (htasks : s'.tasks = s.tasks) : EndsNone reason s s' :=
  fun t ht hended => ⟨t, htasks ▸ ht, rfl, hended⟩

/-- Stores that differ in the columns of some tasks. -/
theorem of_rows {p : Task → Bool} {f : Task → Task}
    (htasks : s'.tasks.rows = s.tasks.rows.map fun t => if p t then f t else t)
    (hid : ∀ t, (f t).id = t.id)
    (hf : ∀ t, p t = true → EndedFor reason (f t) → EndedFor reason t) : EndsNone reason s s' := by
  intro t' ht' hended
  rw [Table.mem_def, htasks] at ht'
  obtain ⟨t, ht, hrow⟩ := List.mem_map.mp ht'
  by_cases hp : p t = true
  · rw [if_pos hp] at hrow
    rw [← hrow] at hended ⊢
    exact ⟨t, ht, (hid t).symm, hf t hp hended⟩
  · rw [if_neg hp] at hrow
    rw [← hrow] at hended ⊢
    exact ⟨t, ht, rfl, hended⟩

/-- Queued work has not ended. -/
theorem not_drained (h : EndsNone reason s s') : ¬ DrainedFor reason jobId s s' := by
  rintro ⟨t, ht, -, hqueued, t', ht', hid, hended⟩
  obtain ⟨u, hu, huid, hbefore⟩ := h t' ht' hended
  rw [task_eq_of_id ht hu (hid.symm.trans huid.symm), hbefore.1] at hqueued
  cases hqueued

end EndsNone

section Drains

variable {x : Txn} {s s' : Store} {reason : String} {f : FencedTask}

/-- The row of a task after a drain. -/
theorem drainUnleased_row (now : Time) (jobId : Uuid) (reason : String) {t : Task}
    (ht : t ∈ s.tasks) (hqueued : t.state.queued = true) :
    (if t.jobId = jobId then drainTask now reason t else t) ∈
      (drainUnleased now jobId reason s).tasks := by
  rw [drainUnleased_tasks]
  by_cases hjob : t.jobId = jobId
  · rw [if_pos hjob]
    exact Table.mem_update_row (f := drainTask now reason) (fun _ => rfl) ht
      (by simp [hjob, hqueued])
  · rw [if_neg hjob]
    exact Table.mem_update_other (f := drainTask now reason) (fun _ => rfl) ht (by simp [hjob])

/-- A drain ends the queued work of its job for its own reason. -/
theorem drainedFor_drain {now : Time} {jobId jobId' : Uuid} {reason' : String}
    (htasks : s'.tasks = s.tasks) :
    DrainedFor reason jobId s (drainUnleased now jobId' reason' s') ↔
      reason = reason' ∧ jobId = jobId' ∧ hasQueued jobId s = true := by
  constructor
  · rintro ⟨t, ht, rfl, hqueued, t', ht', hid, hstate, -, hcode⟩
    have hrow := drainUnleased_row now jobId' reason' (htasks ▸ ht : t ∈ s'.tasks) hqueued
    by_cases hjob : t.jobId = jobId'
    · rw [if_pos hjob] at hrow
      rw [task_eq_of_id ht' hrow hid] at hcode
      refine ⟨(Option.some.inj hcode).symm, hjob, Table.any_eq_true.mpr ⟨t, ht, ?_⟩⟩
      simp [hqueued]
    · rw [if_neg hjob] at hrow
      rw [task_eq_of_id ht' hrow hid] at hstate
      rw [hstate] at hqueued
      cases hqueued
  · rintro ⟨rfl, rfl, hqueued⟩
    obtain ⟨t, ht, hp⟩ := Table.any_eq_true.mp hqueued
    simp only [Bool.and_eq_true, decide_eq_true_eq] at hp
    have hrow := drainUnleased_row now jobId reason (htasks ▸ ht : t ∈ s'.tasks) hp.2
    rw [if_pos hp.1] at hrow
    exact ⟨t, ht, hp.1, hp.2, _, hrow, rfl, rfl, rfl, rfl⟩

/-- It ends nothing for another. -/
theorem drainUnleased_endsNone (now : Time) (jobId : Uuid) {reason' : String}
    (hother : reason ≠ reason') (s : Store) :
    EndsNone reason s (drainUnleased now jobId reason' s) := by
  refine EndsNone.of_rows (f := drainTask now reason')
    (congrArg Table.rows (drainUnleased_tasks now jobId reason' s)) (fun _ => rfl) ?_
  intro t _ hended
  exact absurd (Option.some.inj hended.2.2).symm hother

theorem terminalize_endsNone (now : Time) {state : TaskState} {errorClass errorCode : Option String}
    (hstate : state ≠ .permanentFailed ∨ errorCode ≠ some reason)
    (hlimit : reason ≠ "max_failures_exceeded") (s : Store) :
    EndsNone reason s (terminalize now f state errorClass errorCode s) := by
  have htask : EndsNone reason s (terminalizeTask now f state errorClass errorCode s) := by
    refine EndsNone.of_rows rfl (fun _ => rfl) fun t _ hended => ?_
    rcases hstate with hstate | hcode
    · exact absurd hended.1 hstate
    · exact absurd hended.2.2 hcode
  refine trans_of _ htask ?_
  unfold terminalize
  dsimp only
  split
  · unfold enforceFailureLimit
    split
    · exact EndsNone.of_tasks rfl
    · split
      · have hrest : EndsNone reason _ _ := drainUnleased_endsNone now f.task.jobId hlimit
          (terminalizeJob now f.task.jobId state
            (releaseLease f (terminalizeTask now f state errorClass errorCode s)))
        exact hrest
      · exact EndsNone.of_tasks rfl
  · exact EndsNone.of_tasks rfl

/-! ## Claims -/

variable {t : Task} {j : Job}

theorem lease_endsNone {p : Task → Bool} {f : Task → Task}
    (hf : ∀ t, Keyed.key (f t) = Keyed.key t) (hleased : ∀ t, (f t).state = .leased) (s : Store) :
    EndsNone reason s (s.updateTasks p f hf) := by
  refine EndsNone.of_rows rfl (fun t => ?_) fun t _ hended => ?_
  · have hkey : ((f t).id, (f t).jobId, (f t).urlHash) = (t.id, t.jobId, t.urlHash) := hf t
    simp only [Prod.mk.injEq] at hkey
    exact hkey.1
  · have hstate := hended.1
    rw [hleased t] at hstate
    cases hstate

theorem grantLease_endsNone (x : Txn) (workerId : String) (task : Task) (job : Job)
    (bytes artifacts : ℤ) :
    Steps (EndsNone reason) (grantLease x workerId task job bytes artifacts) := by
  unfold grantLease
  refine exec_bind_steps (fun _ => EndsNone.of_tasks rfl) ?_
  refine exec_bind_steps (fun _ => EndsNone.of_tasks rfl) ?_
  refine exec_bind_steps (lease_endsNone _ fun _ => rfl) ?_
  refine attempt_bind_steps (fun s s' h => ?_) (attempt_bind_steps (fun s s' h => ?_) ?_)
  · obtain ⟨T, -, rfl⟩ := Option.map_eq_some_iff.mp h
    exact EndsNone.of_tasks rfl
  · obtain ⟨T, -, rfl⟩ := Option.map_eq_some_iff.mp h
    exact EndsNone.of_tasks rfl
  · exact exec_bind_steps (fun _ => EndsNone.of_tasks rfl) (Steps.pure _)

/-- A claim drains the job of the task it picked, for the budget it finds spent. -/
theorem claim_drains_iff {url : UrlIdentity} {workerId : String} {capabilities : List String}
    {jobId : Uuid} (hc : candidate x capabilities s = some (t, j)) :
    DrainedFor reason jobId s (step url ⟨x, .claimTask workerId capabilities⟩ s) ↔
      (¬ Blocked x.now (originFor x.now t.originKey s) ∧ s.originLeased t.originKey = false ∧
        ¬ Affordable j) ∧ reason = spentReason j ∧ jobId = t.jobId := by
  have hcandidate := candidate_eq_some hc
  have hqueued : hasQueued t.jobId s = true :=
    Table.any_eq_true.mpr ⟨t, hcandidate.task, by simp [hcandidate.queued]⟩
  rw [step_claim]
  obtain ⟨s₁, hopened, hends⟩ := claimTask_cases workerId hc
  have htasks := hopened.tables.1
  rcases hends with ⟨hblocked, u, -, hrun⟩ | ⟨hclear, ⟨hleased, hrun⟩ | ⟨hfree, hends⟩⟩
  · rw [commit_of_ok hrun]
    have hdefer : EndsNone reason s (deferTask t.id u s₁) := by
      refine trans_of _ (EndsNone.of_tasks htasks) ?_
      exact EndsNone.of_rows rfl (fun _ => rfl) fun _ _ hended => hended
    exact iff_of_false hdefer.not_drained fun h => h.1.1 hblocked
  · rw [commit_of_ok hrun]
    have hsame : EndsNone reason s s₁ := EndsNone.of_tasks htasks
    refine iff_of_false hsame.not_drained fun h => ?_
    rw [hleased] at h
    exact absurd h.1.2.1 (by simp)
  · rcases hends with ⟨hspent, hrun⟩ | ⟨haffordable, hrun⟩
    · rw [commit_of_ok hrun, drainedFor_drain htasks]
      constructor
      · rintro ⟨hreason, rfl, -⟩
        exact ⟨⟨hclear, hfree, hspent⟩, hreason, rfl⟩
      · rintro ⟨-, hreason, rfl⟩
        exact ⟨hreason, rfl, hqueued⟩
    · have hgrant : EndsNone reason s (commit (claimTask x workerId capabilities) s).2 := by
        cases hlease : grantLease x workerId t j (allowances t j).1 (allowances t j).2 s₁ with
        | error e =>
            rw [map_run_error hlease] at hrun
            rw [commit_of_error hrun]
            exact refl_of _ s
        | ok p =>
            rw [map_run_ok hlease] at hrun
            rw [commit_of_ok hrun]
            exact trans_of _ (EndsNone.of_tasks htasks) (grantLease_endsNone _ _ _ _ _ _ hlease)
      exact iff_of_false hgrant.not_drained fun h => h.1.2.2 haffordable

theorem affordable_bytes : ¬ Affordable j ↔ j.remainingBytes ≤ 0 ∨
    (0 < j.remainingBytes ∧ j.remainingArtifacts ≤ 0) := by
  unfold Affordable
  omega

/-- Claims that are justified. -/
theorem claim_justified_iff {url : UrlIdentity} {workerId : String} {capabilities : List String} :
    Justified url ⟨x, .claimTask workerId capabilities⟩ s ↔
      SpendsOwn ⟨x, .claimTask workerId capabilities⟩ s := by
  constructor
  · intro h t j hc hclear hfree
    obtain ⟨hj, hid⟩ := Store.job?_eq_some.mp (candidate_eq_some hc).job
    obtain ⟨hbytes, hartifacts⟩ := h (1, 1) rfl j hj
    constructor
    · intro hnone
      have hown : j.ownBytes < 1 := hbytes <| (claim_drains_iff hc).mpr
        ⟨⟨hclear, hfree, affordable_bytes.mpr (Or.inl hnone)⟩, by simp [spentReason, hnone], hid⟩
      omega
    · intro hsome hnone
      have hown : j.ownArtifacts < 1 := hartifacts <| (claim_drains_iff hc).mpr
        ⟨⟨hclear, hfree, affordable_bytes.mpr (Or.inr ⟨hsome, hnone⟩)⟩,
          by simp [spentReason, hsome], hid⟩
      omega
  · intro h need hneed j' hj'
    obtain rfl : need = (1, 1) := (Option.some.inj hneed).symm
    have hdrained : ∀ reason, DrainedFor reason j'.id s
        (step url ⟨x, .claimTask workerId capabilities⟩ s) →
          reason = spentReason j' ∧ ¬ Affordable j' ∧
            (j'.remainingBytes ≤ 0 → j'.ownBytes ≤ 0) ∧
            (0 < j'.remainingBytes → j'.remainingArtifacts ≤ 0 → j'.ownArtifacts ≤ 0) := by
      intro reason hdrained
      cases hc : candidate x capabilities s with
      | none =>
          have hrun : claimTask x workerId capabilities s = .ok (none, s) := by
            rw [claimTask_run, hc]
          rw [step_claim, commit_of_ok hrun] at hdrained
          exact absurd hdrained (refl_of (EndsNone reason) s).not_drained
      | some p =>
          obtain ⟨t, j⟩ := p
          obtain ⟨⟨hclear, hfree, hspent⟩, hreason, hjob⟩ := (claim_drains_iff hc).mp hdrained
          obtain ⟨hj, hid⟩ := Store.job?_eq_some.mp (candidate_eq_some hc).job
          obtain rfl : j' = j := job_eq_of_id hj' hj (hjob.trans hid.symm)
          exact ⟨hreason, hspent, h t j' hc hclear hfree⟩
    constructor
    · intro hbytes
      obtain ⟨hreason, -, hown, -⟩ := hdrained _ hbytes
      unfold spentReason at hreason
      split at hreason
      · rename_i hnone
        have := hown hnone
        show j'.ownBytes < 1
        omega
      · simp at hreason
    · intro hartifacts
      obtain ⟨hreason, hspent, -, hown⟩ := hdrained _ hartifacts
      unfold spentReason at hreason
      split at hreason
      · simp at hreason
      · rename_i hsome
        rcases affordable_bytes.mp hspent with hnone | ⟨hleft, hnone⟩
        · exact absurd hnone hsome
        · have := hown hleft hnone
          show j'.ownArtifacts < 1
          omega

/-! ## Completions -/

theorem insertTaskOnce_endsNone {t : Task} (hstate : t.state = .pending) :
    Steps (EndsNone reason) (insertTaskOnce t) := by
  unfold insertTaskOnce
  refine Steps.read_bind fun found => Steps.ite (Steps.pure _) ?_
  refine attempt_bind_steps (fun s s' h => ?_) (Steps.pure _)
  obtain ⟨-, T, hT, rfl⟩ := insertTask_eq_some.mp h
  intro t' ht' hended
  rcases (Table.mem_of_insert? hT).mp ht' with hmem | rfl
  · exact ⟨t', hmem, rfl, hended⟩
  · rw [hended.1] at hstate
    cases hstate

theorem insertDiscovered_endsNone (url : UrlIdentity) (x : Txn) (f : FencedTask)
    (urls : List String) : Steps (EndsNone reason) (insertDiscovered url x f urls) := by
  have hlinks : ∀ remaining urls draw accepted,
      Steps (EndsNone reason) (insertLinks url x f remaining urls draw accepted) := by
    intro remaining urls
    induction urls with
    | nil => exact fun _ _ => Steps.pure _
    | cons original urls ih =>
        intro draw accepted
        unfold insertLinks
        refine Steps.ite (Steps.pure _) (Steps.ite (ih ..) ?_)
        exact (insertTaskOnce_endsNone (by rfl)).bind fun _ => ih ..
  unfold insertDiscovered
  refine Steps.ite (Steps.pure _) (Steps.ite (Steps.pure _) ?_)
  refine (hlinks ..).bind fun accepted => Steps.ite ?_ (Steps.pure _)
  exact Steps.exec fun _ => EndsNone.of_tasks rfl

theorem settleCompleted_endsNone (x : Txn) (f : FencedTask) (metadata : Metadata)
    (downloaded artifacts : ℤ) (s : Store) :
    EndsNone reason s (settleCompleted x f metadata downloaded artifacts s) := by
  refine EndsNone.of_rows (p := fun t => t.id = f.task.id && t.leaseToken = some f.token)
    (f := fun t => { t.unlease with state := .succeeded, finishedAt := some x.now }) rfl
    (fun _ => rfl) fun t _ hended => ?_
  cases hended.1

/-- The fence ends a lease of a stopped job for no budget. -/
theorem rejectInactiveLease_endsNone (hreason : some "deadline_exceeded" ≠ some reason)
    (hlimit : reason ≠ "max_failures_exceeded") (x : Txn) (f : FencedTask) :
    Steps (EndsNone reason) (rejectInactiveLease x f) := by
  have hreconcile : Steps (EndsNone reason) (reconcileAbandoned x (some f.task.id)) :=
    reconcileAbandoned_steps (fun _ _ _ => EndsNone.of_tasks rfl) x _
  unfold rejectInactiveLease
  refine Steps.ite ?_ (Steps.ite ?_ (Steps.pure _))
  · refine exec_bind_steps (fun s => ?_) (hreconcile.bind fun _ => Steps.pure _)
    exact terminalize_endsNone x.now (Or.inl (by decide)) hlimit s
  · refine exec_bind_steps (fun s => ?_) (hreconcile.bind fun _ => Steps.pure _)
    exact terminalize_endsNone x.now (Or.inr hreason) hlimit s

/-- The row of a queued sibling once a result over budget has been rejected. -/
theorem rejectOverBudget_row (hf : Fenced s f) (metadata : Metadata) (reason : String) {t : Task}
    (ht : t ∈ s.tasks) (hqueued : t.state.queued = true) :
    (if t.jobId = f.task.jobId then
        drainTask x.now (if f.job.config.maxFailures ≤ f.job.failedCount + 1 then
          "max_failures_exceeded" else reason) t
      else t) ∈ (rejectOverBudget x f metadata reason s).tasks := by
  let E := endLease x.now f .permanentFailed (some "budget") (some reason) "failed" metadata
    (actualBytes f.task metadata) s
  have hE : t ∈ (closeCancelled x.now f.task.jobId E).tasks := by
    show t ∈ E.tasks
    rw [endLease_tasks hf]
    refine Table.mem_update_other (key_settledTask x.now _ _ _) ht (decide_eq_false fun hid => ?_)
    rw [task_eq_of_id ht hf.mem hid, hf.leased] at hqueued
    cases hqueued
  have hrows : (rejectOverBudget x f metadata reason s).tasks =
      (drainUnleased x.now f.task.jobId reason
        (if f.job.config.maxFailures ≤ f.job.failedCount + 1 then
          drainUnleased x.now f.task.jobId "max_failures_exceeded"
            (closeCancelled x.now f.task.jobId E)
        else closeCancelled x.now f.task.jobId E)).tasks := by
    rw [← settleFailed_eq hf, ← charge_terminalize]
    rfl
  rw [hrows]
  by_cases hlimit : f.job.config.maxFailures ≤ f.job.failedCount + 1
  · rw [if_pos hlimit, if_pos hlimit]
    have hfirst := drainUnleased_row x.now f.task.jobId "max_failures_exceeded" hE hqueued
    by_cases hjob : t.jobId = f.task.jobId
    · rw [if_pos hjob] at hfirst ⊢
      rw [drainUnleased_tasks]
      exact Table.mem_update_other (p := fun t : Task => t.jobId = f.task.jobId && t.state.queued)
        (f := drainTask x.now reason) (fun _ => rfl) hfirst (Bool.and_false _)
    · rw [if_neg hjob] at hfirst ⊢
      have hsecond := drainUnleased_row x.now f.task.jobId reason hfirst hqueued
      rwa [if_neg hjob] at hsecond
  · rw [if_neg hlimit, if_neg hlimit]
    exact drainUnleased_row x.now f.task.jobId reason hE hqueued

/-- A rejected result drains its job for its own reason, unless the failure
limit drains it first. -/
theorem rejectOverBudget_drains_iff (hf : Fenced s f) {metadata : Metadata}
    {reason reason' : String} {jobId : Uuid} (hlimit : reason ≠ "max_failures_exceeded") :
    DrainedFor reason jobId s (rejectOverBudget x f metadata reason' s) ↔
      reason = reason' ∧ jobId = f.task.jobId ∧ hasQueued f.task.jobId s = true ∧
        f.job.failedCount + 1 < f.job.config.maxFailures := by
  constructor
  · rintro ⟨t, ht, rfl, hqueued, t', ht', hid, hended⟩
    have hrow := rejectOverBudget_row (x := x) hf metadata reason' ht hqueued
    by_cases hjob : t.jobId = f.task.jobId
    · rw [if_pos hjob] at hrow
      rw [task_eq_of_id ht' hrow hid] at hended
      have hcode := Option.some.inj hended.2.2
      split at hcode
      · exact absurd hcode.symm hlimit
      · rename_i hbelow
        refine ⟨hcode.symm, hjob, Table.any_eq_true.mpr ⟨t, ht, ?_⟩, not_le.mp hbelow⟩
        simp [hjob, hqueued]
    · rw [if_neg hjob] at hrow
      rw [task_eq_of_id ht' hrow hid] at hended
      rw [hended.1] at hqueued
      cases hqueued
  · rintro ⟨rfl, rfl, hany, hbelow⟩
    obtain ⟨t, ht, hp⟩ := Table.any_eq_true.mp hany
    simp only [Bool.and_eq_true, decide_eq_true_eq] at hp
    have hrow := rejectOverBudget_row (x := x) hf metadata reason ht hp.2
    rw [if_pos hp.1, if_neg (not_le.mpr hbelow)] at hrow
    exact ⟨t, ht, hp.1, hp.2, _, hrow, rfl, rfl, rfl, rfl⟩

/-- The budget a result of these sizes is over in the lease. -/
def overReason (f : FencedTask) (sizes : ℤ × ℤ) : Option String :=
  if f.task.byteBudgetReserved < sizes.1 then some "byte_budget_exhausted"
  else if f.task.artifactBudgetReserved < sizes.2 then some "artifact_budget_exhausted"
  else none

/-- A result that drains nothing for budget: only those over the lease's
allowances do. -/
theorem completeTask_drains {url : UrlIdentity} {taskId token jobId : Uuid} {result : TaskResult}
    {b : Bool} (hdead : reason ≠ "deadline_exceeded") (hlimit : reason ≠ "max_failures_exceeded")
    (h : completeTask url x taskId token result s = .ok (b, s'))
    (hdrained : DrainedFor reason jobId s s') :
    ∃ f, s.fencedTask taskId token = some f ∧ Protocol.Current x.now f ∧
      overReason f result.sizes = some reason ∧ jobId = f.task.jobId ∧
        hasQueued f.task.jobId s = true ∧ f.job.failedCount + 1 < f.job.config.maxFailures := by
  rw [completeTask, bind_ok] at h
  obtain ⟨found, s₁, hlease, h⟩ := h
  rcases @activeLease_ok (fun _ => True) trivial _ _ _ _ _ _ hlease with
    ⟨rfl, -⟩ | ⟨f, rfl, rfl, hf, rfl, rfl⟩
  · obtain ⟨-, rfl⟩ := pure_ok.mp h
    have hsame : EndsNone reason s s₁ := by
      simp only [activeLease, bind_ok, read_ok] at hlease
      obtain ⟨found, _, ⟨-, rfl⟩, hlease⟩ := hlease
      cases found with
      | none =>
          obtain ⟨-, rfl⟩ := pure_ok.mp hlease
          exact refl_of _ s
      | some f =>
          obtain ⟨rejected, s₂, hreject, hlease⟩ := bind_ok.mp hlease
          have hends := rejectInactiveLease_endsNone (fun heq => hdead (Option.some.inj heq).symm)
            hlimit x f hreject
          split at hlease
          · obtain ⟨-, rfl⟩ := pure_ok.mp hlease
            exact hends
          · obtain ⟨-, rfl⟩ := pure_ok.mp hlease
            exact hends
    exact absurd hdrained hsame.not_drained
  · dsimp only at h
    split at h
    · rename_i hover
      simp only [bind_ok, exec_ok, pure_ok] at h
      obtain ⟨_, _, rfl, -, rfl⟩ := h
      obtain ⟨hreason, hjob, hqueued, hbelow⟩ :=
        (rejectOverBudget_drains_iff hf.toFenced hlimit).mp hdrained
      refine ⟨f, hf.toFenced.fencedTask_eq, ⟨hf.uncancelled, hf.timely⟩, ?_, hjob, hqueued, hbelow⟩
      rw [hreason]
      unfold overReason
      split
      · rename_i hbytes
        have hover' : f.task.byteBudgetReserved < (reportedBytes result.metadata).1 := hbytes
        rw [if_pos hover']
      · rename_i hbytes
        have hwithin : ¬ f.task.byteBudgetReserved < (reportedBytes result.metadata).1 := hbytes
        have hartifacts : f.task.artifactBudgetReserved < result.sizes.2 :=
          hover.resolve_left hwithin
        rw [if_pos hartifacts, if_neg hwithin]
    · simp only [bind_ok, read_ok] at h
      obtain ⟨done, _, ⟨-, rfl⟩, h⟩ := h
      split at h
      · obtain ⟨-, rfl⟩ := pure_ok.mp h
        exact absurd hdrained (refl_of (EndsNone reason) _).not_drained
      · simp only [bind_ok, attempt_ok, exec_ok, pure_ok] at h
        obtain ⟨_, s₂, hresult, _, s₃, hlinks, _, _, rfl, -, rfl⟩ := h
        obtain ⟨T, -, rfl⟩ := Option.map_eq_some_iff.mp hresult
        have hfirst : EndsNone reason s₁ { s₁ with results := T } := EndsNone.of_tasks rfl
        have hchildren : EndsNone reason { s₁ with results := T } s₃ :=
          insertDiscovered_endsNone url x f _ hlinks
        have hsettled : EndsNone reason s₃ _ := settleCompleted_endsNone x f result.metadata
          (actualBytes f.task result.metadata)
          (result.markdown.utf8ByteSize + (reportedBytes result.metadata).2) s₃
        exact absurd hdrained (trans_of _ hfirst (trans_of _ hchildren hsettled)).not_drained

/-- A result over the lease's allowances is rejected, and drains. -/
theorem completeTask_over {url : UrlIdentity} {taskId token : Uuid} {result : TaskResult}
    (hfence : s.fencedTask taskId token = some f) (hcurrent : Protocol.Current x.now f)
    (hover : overReason f result.sizes = some reason) :
    completeTask url x taskId token result s =
      .ok (false, rejectOverBudget x f result.metadata reason s) := by
  unfold completeTask
  rw [bind_run_ok (activeLease_current hfence hcurrent)]
  dsimp only
  unfold overReason at hover
  split at hover
  · rename_i hbytes
    have hbytes' : f.task.byteBudgetReserved < (reportedBytes result.metadata).1 := hbytes
    rw [if_pos (Or.inl hbytes'), if_pos hbytes', exec_bind_run, pure_run, Option.some.inj hover]
  · rename_i hbytes
    have hwithin : ¬ f.task.byteBudgetReserved < (reportedBytes result.metadata).1 := hbytes
    split at hover
    · rename_i hartifacts
      have hartifacts' : f.task.artifactBudgetReserved <
          (result.markdown.utf8ByteSize : ℤ) + (reportedBytes result.metadata).2 := hartifacts
      rw [if_pos (Or.inr hartifacts'), if_neg hwithin, exec_bind_run, pure_run,
        Option.some.inj hover]
    · cases hover

/-- Results that are justified. -/
theorem complete_justified_iff {url : UrlIdentity} {taskId token : Uuid} {result : TaskResult} :
    Justified url ⟨x, .completeTask taskId token result⟩ s ↔
      SpendsOwn ⟨x, .completeTask taskId token result⟩ s := by
  have hdrains : ∀ {reason jobId} f, s.fencedTask taskId token = some f → Protocol.Current x.now f →
      overReason f result.sizes = some reason → reason ≠ "max_failures_exceeded" →
        hasQueued f.task.jobId s = true → f.job.failedCount + 1 < f.job.config.maxFailures →
          jobId = f.task.jobId →
            DrainedFor reason jobId s (step url ⟨x, .completeTask taskId token result⟩ s) := by
    intro reason jobId f hfence hcurrent hover hlimit hqueued hbelow hjob
    show DrainedFor reason jobId s (commit (completeTask url x taskId token result) s).2
    rw [commit_of_ok (completeTask_over hfence hcurrent hover)]
    exact (rejectOverBudget_drains_iff (Fenced.of_fencedTask hfence).1 hlimit).mpr
      ⟨rfl, hjob, hqueued, hbelow⟩
  constructor
  · intro h f hfence hcurrent hqueued hbelow
    obtain ⟨hf, -⟩ := Fenced.of_fencedTask hfence
    obtain ⟨hbytes, hartifacts⟩ := h result.sizes rfl f.job hf.job_mem
    constructor
    · intro hover
      refine hbytes (hdrains f hfence hcurrent ?_ (by decide) hqueued hbelow hf.job_id)
      simp [overReason, hover]
    · intro hwithin hover
      refine hartifacts (hdrains f hfence hcurrent ?_ (by decide) hqueued hbelow hf.job_id)
      simp [overReason, not_lt.mpr hwithin, hover]
  · intro h need hneed j hj
    obtain rfl : need = result.sizes := (Option.some.inj hneed).symm
    have hinverted : ∀ reason, reason ≠ "deadline_exceeded" → reason ≠ "max_failures_exceeded" →
        DrainedFor reason j.id s (step url ⟨x, .completeTask taskId token result⟩ s) →
          ∃ f, s.fencedTask taskId token = some f ∧ Protocol.Current x.now f ∧
            overReason f result.sizes = some reason ∧ f.job = j ∧
              ResultSpends f result.sizes s ∧ hasQueued f.task.jobId s = true ∧
                f.job.failedCount + 1 < f.job.config.maxFailures := by
      intro reason hdead hlimit hdrained
      have hcases : step url ⟨x, .completeTask taskId token result⟩ s = s ∨ ∃ b,
          completeTask url x taskId token result s =
            .ok (b, step url ⟨x, .completeTask taskId token result⟩ s) := step_cases _ s
      rcases hcases with hsame | ⟨b, hrun⟩
      · rw [hsame] at hdrained
        exact absurd hdrained (refl_of (EndsNone reason) s).not_drained
      · obtain ⟨f, hfence, hcurrent, hover, hjob, hqueued, hbelow⟩ :=
          completeTask_drains hdead hlimit hrun hdrained
        have hf := (Fenced.of_fencedTask hfence).1
        exact ⟨f, hfence, hcurrent, hover, (hf.job_unique j hj hjob).symm,
          h f hfence hcurrent, hqueued, hbelow⟩
    constructor
    · intro hbytes
      obtain ⟨f, -, -, hover, rfl, hspends, hqueued, hbelow⟩ :=
        hinverted _ (by decide) (by decide) hbytes
      unfold overReason at hover
      split at hover
      · rename_i hmore
        exact (hspends hqueued hbelow).1 hmore
      · split at hover
        · simp at hover
        · cases hover
    · intro hartifacts
      obtain ⟨f, -, -, hover, rfl, hspends, hqueued, hbelow⟩ :=
        hinverted _ (by decide) (by decide) hartifacts
      unfold overReason at hover
      split at hover
      · simp at hover
      · rename_i hwithin
        split at hover
        · rename_i hmore
          exact (hspends hqueued hbelow).2 (not_lt.mp hwithin) hmore
        · cases hover

end Drains

/-! ## Runs -/

/-- What a request needs to be justified. -/
theorem justified_iff (url : UrlIdentity) (r : Request) (s : Store) :
    Justified url r s ↔ SpendsOwn r s := by
  obtain ⟨x, call⟩ := r
  cases call with
  | claimTask workerId capabilities => exact claim_justified_iff
  | completeTask taskId token result => exact complete_justified_iff
  | _ => exact iff_of_true (fun _ hneed => absurd hneed (by simp [needs])) trivial

/-- Drains for budget are justified throughout exactly where no step asks more
of a job than the job has left. -/
theorem budget_drains_iff (url : UrlIdentity) (s₀ : Store) (requests : List Request) :
    StepsMeet (step url) (Justified url) s₀ requests ↔
      StepsMeet (step url) SpendsOwn s₀ requests := by
  induction requests generalizing s₀ with
  | nil => exact Iff.rfl
  | cons r requests ih => exact and_congr (justified_iff url r s₀) (ih _)

/-- The seed of a crawl finds two links, and the first is claimed. -/
def oneOfTwo : List Request :=
  [Sample.submit, Sample.claim,
    ⟨{ now := seconds 2, uuid := fun n => 21 + n }, .completeTask 2 11
      { finalUrl := "https://example.com", markdown := "A page."
        discoveredUrls := ["https://example.com/a", "https://example.com/b"] }⟩,
    ⟨{ now := seconds 12, uuid := fun n => 31 + n }, .claimTask "local" ["http"]⟩]

/-- Its page is a byte larger than the cap of one response. -/
def largePage : Request :=
  ⟨{ now := seconds 13, uuid := fun n => 41 + n }, .completeTask 22 31
    { finalUrl := "https://example.com/a", markdown := "A page."
      metadata := { downloadedBytes := .value (some 10485761) (some 10485761) } }⟩

/-- The other is drained, though the job may still download a hundred times as
much. -/
theorem budget_drains_large_page :
    ¬ ∀ requests, StepsMeet (step Sample.identity) (Justified Sample.identity) {} requests := by
  intro h
  have hdrained : ∃ j ∈ (run Sample.identity {} oneOfTwo).jobs, 1000000000 < j.ownBytes ∧
      ∃ t ∈ (run Sample.identity {} oneOfTwo).tasks, t.jobId = j.id ∧ t.state.queued = true ∧
        ∃ t' ∈ (step Sample.identity largePage (run Sample.identity {} oneOfTwo)).tasks,
          t'.id = t.id ∧ t'.state = .permanentFailed ∧ t'.errorClass = some "budget" ∧
            t'.errorCode = some "byte_budget_exhausted" := by decide
  obtain ⟨j, hj, hleft, t, ht, hjob, hqueued, t', ht', hid, hended⟩ := hdrained
  have hjustified := (stepsMeet_append.mp (h (oneOfTwo ++ [largePage]))).2.1
  obtain ⟨hbytes, -⟩ := hjustified (10485761, 7) (by decide) j hj
  have hspent := hbytes ⟨t, ht, hjob, hqueued, t', ht', hid, hended⟩
  have hsize : j.ownBytes < 10485761 := hspent
  omega

end Claiming

end CrawlTrove
