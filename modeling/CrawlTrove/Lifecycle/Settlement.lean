import CrawlTrove.Lifecycle.Action

/-!
# How leases end

Each way a transaction ends a lease is one `Settles` action, whatever helpers
the transaction uses and in whatever order they touch the tables. The core's
`_terminalize` does more: it may close a cancelled job and drain a job over
its failure limit before the report's bytes are charged; those statements
commute, so the lease is settled first and the rest follows.
-/

namespace CrawlTrove

open Relational Transaction

namespace Lifecycle

/-! ## Statements that do not meet commute -/

/-- The part of `_terminalize` that counts the task. -/
def countTerminal (jobId : Uuid) (state : TaskState) (s : Store) : Store :=
  s.updateJobs (fun j => j.id = jobId) fun j =>
    { j with
      terminalCount := j.terminalCount + 1
      failedCount := j.failedCount + if state = .permanentFailed then 1 else 0 }

/-- The job row of `_terminalize` when a cancelled job has no lease left. -/
def closeRow (now : Time) (active : Bool) (j : Job) : Job :=
  { j with
    state := if j.cancelRequestedAt.isSome && !active then .cancelled else j.state
    finishedAt := if j.cancelRequestedAt.isSome && !active then some now else j.finishedAt }

/-- The part of `_terminalize` that finishes a cancelled job. -/
def closeCancelled (now : Time) (jobId : Uuid) (s : Store) : Store :=
  s.updateJobs (fun j => j.id = jobId) (closeRow now (s.hasLeased jobId))

theorem terminalizeJob_eq (now : Time) (jobId : Uuid) (state : TaskState) (s : Store) :
    terminalizeJob now jobId state s = closeCancelled now jobId (countTerminal jobId state s) := by
  simp only [terminalizeJob, closeCancelled, countTerminal, Store.updateJobs]
  rw [Table.update_update]
  · rfl
  · intro j; rfl

/-- The job row after `_drain_unleased` found `n` queued tasks. -/
def drainRow (reason : String) (n : ℤ) (j : Job) : Job :=
  { j with
    terminalCount := j.terminalCount + n
    failedCount := j.failedCount + n
    terminalReason := if n ≠ 0 then some reason else j.terminalReason }

/-- The task row after `_drain_unleased`. -/
def drainTask (now : Time) (reason : String) (t : Task) : Task :=
  { t.unlease with
    state := .permanentFailed
    errorClass := some "budget"
    errorCode := some reason
    finishedAt := some now }

/-- `_drain_unleased` also when it finds nothing. -/
theorem drainUnleased_eq (now : Time) (jobId : Uuid) (reason : String) (s : Store) :
    drainUnleased now jobId reason s =
      (s.updateTasks (fun t => t.jobId = jobId && t.state.queued)
        (drainTask now reason)).updateJobs (fun j => j.id = jobId)
        (drainRow reason (s.tasks.count fun t => t.jobId = jobId && t.state.queued)) := by
  simp only [drainUnleased, Store.updateTasks, Store.updateJobs]
  split
  · rename_i h
    congr 1
    apply Table.ext
    simp only [Table.update, drainRow, if_pos h]
  · rename_i h
    congr 1
    have hzero : (s.tasks.count fun t => t.jobId = jobId && t.state.queued) = 0 := by
      simpa using h
    exact (Table.update_eq_self fun j _ _ => by simp [drainRow, hzero]).symm

theorem finishAttempt_drainUnleased (now now' : Time) (jobId : Uuid) (reason : String)
    (task : Task) (outcome : String) (metadata : Metadata) (d a : ℤ) (s : Store) :
    finishAttempt now task outcome metadata d a (drainUnleased now' jobId reason s) =
      drainUnleased now' jobId reason (finishAttempt now task outcome metadata d a s) := by
  simp only [drainUnleased_eq]
  rfl

theorem finishAttempt_enforceFailureLimit (now now' : Time) (jobId : Uuid)
    (task : Task) (outcome : String) (metadata : Metadata) (d a : ℤ) (s : Store) :
    finishAttempt now task outcome metadata d a (enforceFailureLimit now' jobId s) =
      enforceFailureLimit now' jobId (finishAttempt now task outcome metadata d a s) := by
  have hjob : (finishAttempt now task outcome metadata d a s).job? jobId = s.job? jobId := rfl
  simp only [enforceFailureLimit, hjob]
  cases s.job? jobId with
  | none => rfl
  | some job =>
      by_cases h : job.config.maxFailures ≤ job.failedCount
      · simp only [if_pos h, finishAttempt_drainUnleased]
      · simp only [if_neg h]

theorem finishAttempt_closeCancelled (now now' : Time) (jobId : Uuid)
    (task : Task) (outcome : String) (metadata : Metadata) (d a : ℤ) (s : Store) :
    finishAttempt now task outcome metadata d a (closeCancelled now' jobId s) =
      closeCancelled now' jobId (finishAttempt now task outcome metadata d a s) := rfl

/-- The last closing statement of an attempt decides. -/
theorem finishAttempt_finishAttempt (now : Time) (task : Task) (outcome outcome' : String)
    (metadata metadata' : Metadata) (d a d' a' : ℤ) (s : Store) :
    finishAttempt now task outcome' metadata' d' a'
        (finishAttempt now task outcome metadata d a s) =
      finishAttempt now task outcome' metadata' d' a' s := by
  simp only [finishAttempt, Store.updateAttempts]
  rw [Table.update_update]
  intro r; rfl

/-- `_charge_download` also when there is nothing to charge. -/
theorem chargeDownload_eq (task : Task) (d : ℤ) (s : Store) :
    chargeDownload task d s = s.updateJobs (fun j => j.id = task.jobId) fun j =>
      { j with downloadedBytes := j.downloadedBytes + d } := by
  unfold chargeDownload
  split
  · rfl
  · rename_i h
    have hd : d = 0 := by simpa using h
    subst hd
    simp only [Store.updateJobs]
    rw [Table.update_eq_self fun r _ _ => by simp]

theorem finishAttempt_chargeDownload (now : Time) (task : Task) (outcome : String)
    (metadata : Metadata) (d a c : ℤ) (s : Store) :
    finishAttempt now task outcome metadata d a (chargeDownload task c s) =
      chargeDownload task c (finishAttempt now task outcome metadata d a s) := by
  simp only [chargeDownload_eq]
  rfl

theorem chargeDownload_drainUnleased (now : Time) (reason : String) (task : Task)
    (d : ℤ) (s : Store) :
    chargeDownload task d (drainUnleased now task.jobId reason s) =
      drainUnleased now task.jobId reason (chargeDownload task d s) := by
  simp only [chargeDownload_eq, drainUnleased_eq, Store.updateTasks, Store.updateJobs]
  congr 1
  exact Table.update_comm (fun _ => rfl) (fun _ => rfl) fun _ => rfl

theorem chargeDownload_closeCancelled (now : Time) (task : Task) (d : ℤ) (s : Store) :
    chargeDownload task d (closeCancelled now task.jobId s) =
      closeCancelled now task.jobId (chargeDownload task d s) := by
  simp only [chargeDownload_eq, closeCancelled, Store.updateJobs]
  congr 1
  exact Table.update_comm (fun _ => rfl) (fun _ => rfl) fun _ => rfl

private theorem job?_chargeDownload (task : Task) (d : ℤ) (s : Store) :
    (chargeDownload task d s).job? task.jobId = (s.job? task.jobId).map fun j =>
      { j with downloadedBytes := j.downloadedBytes + d } := by
  rw [chargeDownload_eq]
  cases h : s.job? task.jobId with
  | none =>
      refine Table.find?_eq_none.mpr fun j hj => ?_
      simp only [Store.updateJobs, Table.mem_update] at hj
      obtain ⟨j₀, hj₀, rfl⟩ := hj
      have hne := Table.find?_eq_none.mp h j₀ hj₀
      rw [hne]
      simpa using hne
  | some j =>
      obtain ⟨hj, hid⟩ := Store.job?_eq_some.mp h
      refine Store.job?_eq_some.mpr ⟨?_, hid⟩
      simp only [Store.updateJobs, Table.mem_update]
      exact ⟨j, hj, by simp [hid]⟩

theorem chargeDownload_enforceFailureLimit (now : Time) (task : Task) (d : ℤ) (s : Store) :
    chargeDownload task d (enforceFailureLimit now task.jobId s) =
      enforceFailureLimit now task.jobId (chargeDownload task d s) := by
  simp only [enforceFailureLimit, job?_chargeDownload]
  cases s.job? task.jobId with
  | none => rfl
  | some job =>
      simp only [Option.map_some]
      by_cases h : job.config.maxFailures ≤ job.failedCount
      · simp only [if_pos h, chargeDownload_drainUnleased]
      · simp only [if_neg h]

/-! ## The core's terminal exits -/

/-- The lease ends: the task, its reservation, its count, its bytes and its
attempt, without what follows for the job. -/
def endLease (now : Time) (f : FencedTask) (state : TaskState)
    (errorClass errorCode : Option String) (outcome : String) (metadata : Metadata)
    (downloaded : ℤ) (s : Store) : Store :=
  finishAttempt now f.task outcome metadata downloaded 0 <|
    chargeDownload f.task downloaded <| countTerminal f.task.jobId state <|
      releaseLease f <| terminalizeTask now f state errorClass errorCode s

/-- What a terminal exit does to the job afterwards. -/
def settleJobState (now : Time) (jobId : Uuid) (state : TaskState) (s : Store) : Store :=
  let s := closeCancelled now jobId s
  if state = .permanentFailed then enforceFailureLimit now jobId s else s

theorem terminalize_eq (now : Time) (f : FencedTask) (state : TaskState)
    (errorClass errorCode : Option String) (s : Store) :
    terminalize now f state errorClass errorCode s =
      settleJobState now f.task.jobId state
        (endLease now f state errorClass errorCode state.text { errorCode } 0 s) := by
  have hcharge : ∀ s : Store, chargeDownload f.task 0 s = s := fun s => by simp [chargeDownload]
  unfold terminalize settleJobState endLease
  simp only [terminalizeJob_eq, hcharge]
  split
  · rw [finishAttempt_enforceFailureLimit, finishAttempt_closeCancelled]
  · rw [finishAttempt_closeCancelled]

/-- Charging the report and closing the attempt again, after `_terminalize`,
is the same as doing both at once. -/
theorem charge_terminalize (now : Time) (f : FencedTask) (state : TaskState)
    (errorClass errorCode : Option String) (outcome : String) (metadata : Metadata)
    (d : ℤ) (s : Store) :
    finishAttempt now f.task outcome metadata d 0
        (chargeDownload f.task d (terminalize now f state errorClass errorCode s)) =
      settleJobState now f.task.jobId state
        (endLease now f state errorClass errorCode outcome metadata d s) := by
  have hcharge : ∀ s : Store, chargeDownload f.task 0 s = s := fun s => by simp [chargeDownload]
  rw [terminalize_eq]
  unfold settleJobState endLease
  simp only [hcharge]
  split
  · rw [chargeDownload_enforceFailureLimit, finishAttempt_enforceFailureLimit,
      chargeDownload_closeCancelled, finishAttempt_closeCancelled,
      ← finishAttempt_chargeDownload, finishAttempt_finishAttempt]
  · rw [chargeDownload_closeCancelled, finishAttempt_closeCancelled,
      ← finishAttempt_chargeDownload, finishAttempt_finishAttempt]

/-! ## Current leases -/

/-- `t` is leased under `token`. -/
structure Holds (s : Store) (t : Task) (token : Uuid) : Prop where
  mem : t ∈ s.tasks
  leased : t.state = .leased
  token : t.leaseToken = some token

/-- A fenced task with its job row. -/
structure Fenced (s : Store) (f : FencedTask) : Prop extends Holds s f.task f.token where
  job_mem : f.job ∈ s.jobs
  job_id : f.job.id = f.task.jobId

theorem Fenced.of_fencedTask {s : Store} {taskId token : Uuid} {f : FencedTask}
    (h : s.fencedTask taskId token = some f) :
    Fenced s f ∧ f.task.id = taskId ∧ f.token = token := by
  obtain ⟨hmem, hid, hleased, htoken, hjob, hjid, rfl⟩ := Store.fencedTask_eq_some h
  exact ⟨⟨⟨hmem, hleased, htoken⟩, hjob, hjid⟩, hid, rfl⟩

/-- Every row with the fenced job's id is the fenced row. -/
theorem Fenced.job_unique {s : Store} {f : FencedTask} (h : Fenced s f) :
    ∀ j ∈ s.jobs, j.id = f.task.jobId → j = f.job := fun _ hj hid =>
  job_eq_of_id hj h.job_mem (hid.trans h.job_id.symm)

/-- The fence selects the same row with and without the token. -/
theorem Holds.fence_eq {s : Store} {t : Task} {token : Uuid} (h : Holds s t token) :
    ∀ r ∈ s.tasks, (decide (r.id = t.id) && decide (r.leaseToken = some token)) =
      decide (r.id = t.id) := by
  intro r hr
  by_cases hid : r.id = t.id
  · obtain rfl := task_eq_of_id hr h.mem hid
    simp [h.token]
  · simp [hid]

/-- A rewrite of the fenced row, as a change of the row with the task's id. -/
theorem Holds.changed {s : Store} {t : Task} {token : Uuid} (h : Holds s t token)
    {R : Task → Task → Prop} {T : Table Task}
    (hc : s.tasks.Changed (fun r => decide (r.id = t.id) && decide (r.leaseToken = some token)) R T) :
    s.tasks.Changed (fun r => r.id = t.id) R T :=
  hc.congr h.fence_eq

/-- The permits `_release_lease` deletes are the lease's own. -/
theorem Holds.releases {s : Store} {t : Task} {token : Uuid} (h : Holds s t token) :
    ∃ p, s.originLeases.delete (fun l => l.taskId = t.id && l.leaseToken = token) =
        s.originLeases.delete p ∧
      (∀ l ∈ s.originLeases, p l = true → l.taskId = t.id) ∧
      ∀ l ∈ s.originLeases, l.taskId = t.id → t.leaseToken = some l.leaseToken → p l = true := by
  refine ⟨_, rfl, fun l _ hl => ?_, fun l _ hid htoken => ?_⟩
  · simp only [Bool.and_eq_true, decide_eq_true_eq] at hl
    exact hl.1
  · rw [h.token, Option.some.injEq] at htoken
    simp [hid, htoken]

/-- What `_actual_bytes` charges fits the reservation. -/
theorem actualBytes_ok (t : Task) (metadata : Metadata) (h : 0 ≤ t.byteBudgetReserved) :
    0 ≤ actualBytes t metadata ∧ actualBytes t metadata ≤ t.byteBudgetReserved := by
  unfold actualBytes
  omega

/-! ## Terminal exits settle the lease -/

/-- The states handed to `_terminalize`. -/
def Exits (state : TaskState) : Prop :=
  state = .cancelled ∨ state = .permanentFailed ∨ state = .blockedRobots

theorem endLease_settles {now : Time} {f : FencedTask} {state : TaskState}
    {errorClass errorCode : Option String} {outcome : String} {metadata : Metadata} {d : ℤ}
    {s : Store} (hf : Fenced s f) (hstate : Exits state)
    (hd : 0 ≤ f.task.byteBudgetReserved → 0 ≤ d ∧ d ≤ f.task.byteBudgetReserved) :
    Settles f.task state d 0 (decide (state ≠ .blockedRobots)) s
      (endLease now f state errorClass errorCode outcome metadata d s) where
  task := ⟨hf.mem, hf.leased⟩
  ends := by rcases hstate with rfl | rfl | rfl <;> simp
  downloaded_ok := hd
  artifacts_ok := fun h => ⟨le_refl 0, h⟩
  counted_ok := by
    intro h
    exact Or.inl (by simpa using h)
  parked_ok := by rcases hstate with rfl | rfl | rfl <;> simp
  jobs := by
    simp only [endLease, finishAttempt, chargeDownload_eq, countTerminal, releaseLease,
      terminalizeTask, Store.updateJobs, Store.updateTasks, Store.updateAttempts,
      Store.deleteOriginLeases]
    rw [Table.update_update, Table.update_update]
    · refine Table.Changed.of_update fun j _ _ => ?_
      rcases hstate with rfl | rfl | rfl <;>
        simp [Job.To, Job.core, settleJob, TaskState.terminal, TaskState.failed]
    · intro j; rfl
    · intro j; rfl
  tasks := by
    simp only [endLease, finishAttempt, chargeDownload_eq]
    refine hf.changed ?_
    refine Table.Changed.of_update fun t _ _ => ?_
    rfl
  leases := by
    simp only [endLease, finishAttempt, chargeDownload_eq]
    exact hf.releases
  attempts := by
    simp only [endLease, finishAttempt, chargeDownload_eq]
    exact Table.Changed.of_update fun a _ _ =>
      ⟨rfl, rfl, rfl, rfl, rfl, fun _ => rfl, fun _ => rfl⟩
  usage := by
    simp only [endLease, finishAttempt, chargeDownload_eq]
    rfl

/-- A row every statement finds unchanged leaves the store as it is. -/
theorem closeCancelled_trace {ok : Event → Prop} (hok : ok .ordinary) (now : Time) (jobId : Uuid)
    (s : Store) : Trace Action ok s (closeCancelled now jobId s) := by
  by_cases hclose : s.hasLeased jobId = false ∧
      ∀ j ∈ s.jobs, j.id = jobId → j.cancelRequestedAt.isSome = true
  · obtain ⟨hidle, hflag⟩ := hclose
    refine Trace.single hok (Action.close jobId .cancelled
      ⟨Or.inl ⟨rfl, hflag, Store.hasLeased_eq_false.mp hidle⟩, ?_, rfl, rfl, rfl, rfl⟩)
    refine Table.Changed.of_update fun j hj hid => ?_
    have hj' := hflag j hj (by simpa using hid)
    simp [Job.To, Job.core, closeRow, hidle, hj']
  · have hsame : closeCancelled now jobId s = s := by
      refine Store.updateJobs_eq_self fun j hj hid => ?_
      have hstay : (j.cancelRequestedAt.isSome && !s.hasLeased jobId) = false := by
        by_contra hne
        simp only [Bool.not_eq_false, Bool.and_eq_true, Bool.not_eq_true'] at hne
        refine hclose ⟨hne.2, fun j' hj' hid' => ?_⟩
        rw [job_eq_of_id hj' hj (hid'.trans (of_decide_eq_true hid).symm)]
        exact hne.1
      simp [closeRow, hstay]
    rw [hsame]
    exact Trace.refl

theorem drainUnleased_trace {ok : Event → Prop} (hok : ok .ordinary) (now : Time) (jobId : Uuid)
    (reason : String) (s : Store) : Trace Action ok s (drainUnleased now jobId reason s) := by
  rw [drainUnleased_eq]
  refine Trace.single hok (Action.drain jobId .permanentFailed
    ⟨Or.inl rfl, ?_, ?_, rfl, rfl, rfl⟩)
  · refine Table.Changed.of_update fun j _ _ => ?_
    rfl
  · refine Table.Changed.of_update fun t _ _ => ?_
    exact Or.inl rfl

theorem enforceFailureLimit_trace {ok : Event → Prop} (hok : ok .ordinary) (now : Time)
    (jobId : Uuid) (s : Store) : Trace Action ok s (enforceFailureLimit now jobId s) := by
  unfold enforceFailureLimit
  split
  · exact Trace.refl
  · split
    · exact drainUnleased_trace hok ..
    · exact Trace.refl

theorem settleJobState_trace {ok : Event → Prop} (hok : ok .ordinary) (now : Time)
    (jobId : Uuid) (state : TaskState) (s : Store) :
    Trace Action ok s (settleJobState now jobId state s) := by
  unfold settleJobState
  have hclose := closeCancelled_trace hok now jobId s
  split
  · exact hclose.trans (enforceFailureLimit_trace hok ..)
  · exact hclose

/-- The label of a terminal exit. -/
def exitEvent (f : FencedTask) (state : TaskState) : Event :=
  if state = .blockedRobots then .blocked f.task false else .ordinary

/-- A terminal exit with the bytes its report is charged. -/
theorem exit_trace {ok : Event → Prop} {now : Time} {f : FencedTask} {state : TaskState}
    {errorClass errorCode : Option String} {outcome : String} {metadata : Metadata} {d : ℤ}
    {s : Store} (hok : ok .ordinary) (hexit : ok (exitEvent f state)) (hf : Fenced s f)
    (hstate : Exits state)
    (hd : 0 ≤ f.task.byteBudgetReserved → 0 ≤ d ∧ d ≤ f.task.byteBudgetReserved) :
    Trace Action ok s (settleJobState now f.task.jobId state
      (endLease now f state errorClass errorCode outcome metadata d s)) := by
  refine (Trace.single hexit (Action.settle _ f.task state d 0 _ ?_ ?_ ?_
    (endLease_settles hf hstate hd))).trans (settleJobState_trace hok ..)
  · rintro rfl
    simp [exitEvent]
  · rintro rfl
    simp
  · rcases hstate with rfl | rfl | rfl <;> simp [TaskState.terminal]

theorem terminalize_trace {ok : Event → Prop} {now : Time} {f : FencedTask} {state : TaskState}
    {errorClass errorCode : Option String} {s : Store} (hok : ok .ordinary)
    (hexit : ok (exitEvent f state)) (hf : Fenced s f) (hstate : Exits state) :
    Trace Action ok s (terminalize now f state errorClass errorCode s) := by
  rw [terminalize_eq]
  exact exit_trace hok hexit hf hstate fun h => ⟨le_refl 0, h⟩

/-! ## Steps the invariants do not see -/

/-- The tables the invariants read are the same. -/
structure Frames (s s' : Store) : Prop where
  jobs : s'.jobs = s.jobs
  tasks : s'.tasks = s.tasks
  leases : s'.originLeases = s.originLeases
  attempts : s'.attempts = s.attempts
  usage : s'.usage = s.usage

theorem Frames.idles {s s' : Store} (h : Frames s s') : Idles s s' where
  jobs := h.jobs ▸ Table.Changed.refl fun _ _ _ => rfl
  tasks := h.tasks ▸ Table.Changed.refl fun _ _ _ => rfl
  leases := h.leases ▸ Table.Changed.refl fun _ _ _ => rfl
  attempts := h.attempts
  usage := h.usage

theorem Frames.trace {ok : Event → Prop} (hok : ok .ordinary) {s s' : Store} (h : Frames s s') :
    Trace Action ok s s' := Trace.single hok (.idle h.idles)

/-- A job update the invariants do not see. -/
theorem idle_updateJobs {p : Job → Bool} {f : Job → Job} (s : Store)
    (h : ∀ j, (f j).core = j.core)
    (hf : ∀ j, Keyed.key (f j) = Keyed.key j := by intro _; rfl) :
    Idles s (s.updateJobs p f hf) where
  jobs := by
    have hrows : s.jobs.Changed p (Job.To id) (s.jobs.update p f hf) :=
      ⟨f, hf, rfl, fun j _ _ => h j⟩
    exact hrows.widen (fun _ _ _ => rfl) fun _ _ _ => rfl
  tasks := Table.Changed.refl fun _ _ _ => rfl
  leases := Table.Changed.refl fun _ _ _ => rfl
  attempts := rfl
  usage := rfl

/-- A task update the invariants do not see. -/
theorem idle_updateTasks {p : Task → Bool} {f : Task → Task} (s : Store)
    (h : ∀ t, (f t).core = t.core)
    (hf : ∀ t, Keyed.key (f t) = Keyed.key t := by intro _; rfl) :
    Idles s (s.updateTasks p f hf) where
  jobs := Table.Changed.refl fun _ _ _ => rfl
  tasks := by
    have hrows : s.tasks.Changed p (Task.To id) (s.tasks.update p f hf) :=
      ⟨f, hf, rfl, fun t _ _ => h t⟩
    exact hrows.widen (fun _ _ _ => rfl) fun _ _ _ => rfl
  leases := Table.Changed.refl fun _ _ _ => rfl
  attempts := rfl
  usage := rfl

/-- A settlement may be followed by statements the invariants do not see. -/
theorem Settles.frame {t : Task} {σ : TaskState} {d a : ℤ} {counted : Bool}
    {s s' s'' : Store} (h : Settles t σ d a counted s s') (hframe : Frames s' s'') :
    Settles t σ d a counted s s'' :=
  { h with
    jobs := hframe.jobs ▸ h.jobs
    tasks := hframe.tasks ▸ h.tasks
    leases := hframe.leases ▸ h.leases
    attempts := hframe.attempts ▸ h.attempts
    usage := hframe.usage.trans h.usage }

end Lifecycle

end CrawlTrove
