import CrawlTrove.Lifecycle.LeaseActions

/-!
# Completions of the core as actions

`complete_task` inserts the children of a page before it settles the page's
own lease. The inserts and the settlement do not meet, so the lease is
settled first and each child is then discovered by a page that succeeded,
which is the order the remote implementation uses.
-/

namespace CrawlTrove

open Relational Transaction

namespace Lifecycle

/-! ## Settling a completed lease -/

theorem settleCompleted_settles (x : Txn) {f : FencedTask} (metadata : Metadata)
    {downloaded artifacts : ℤ} {s : Store} (hf : Fenced s f)
    (hd : 0 ≤ f.task.byteBudgetReserved → 0 ≤ downloaded ∧ downloaded ≤ f.task.byteBudgetReserved)
    (ha : 0 ≤ f.task.artifactBudgetReserved →
      0 ≤ artifacts ∧ artifacts ≤ f.task.artifactBudgetReserved) :
    Settles f.task .succeeded downloaded artifacts true s
      (settleCompleted x f metadata downloaded artifacts s) where
  task := ⟨hf.mem, hf.leased⟩
  ends := by simp
  downloaded_ok := hd
  artifacts_ok := ha
  counted_ok := by simp
  parked_ok := by simp
  jobs := by
    simp only [settleCompleted, releaseLease, resetOrigin, finishAttempt, Store.updateJobs,
      Store.updateTasks, Store.updateOrigins, Store.updateAttempts, Store.deleteOriginLeases]
    rw [Table.update_update]
    · refine Table.Changed.of_update fun j _ _ => ?_
      simp [Job.To, Job.core, settleJob, TaskState.terminal, TaskState.failed]
    · intro j; rfl
  tasks := by
    refine hf.changed ?_
    refine Table.Changed.of_update fun t _ _ => ?_
    rfl
  leases := hf.releases
  attempts := by
    refine Table.Changed.of_update fun a _ _ => ?_
    exact ⟨rfl, rfl, rfl, rfl, rfl, fun _ => rfl, fun _ => rfl⟩
  usage := rfl

/-! ## Discovering children after the settlement -/

/-- The job has `k` more tasks than the fence saw. -/
def bump (jobId : Uuid) (k : ℤ) (s : Store) : Store :=
  s.updateJobs (fun j => j.id = jobId) fun j =>
    { j with
      discoveredCount := j.discoveredCount + k
      nextDiscoverySeq := j.nextDiscoverySeq + k }

theorem bump_zero (jobId : Uuid) (s : Store) : bump jobId 0 s = s :=
  Store.updateJobs_eq_self fun j _ _ => by simp

theorem bump_succ (jobId : Uuid) (k : ℤ) (s : Store) :
    bump jobId (k + 1) s = bump jobId 1 (bump jobId k s) := by
  simp only [bump, Store.updateJobs]
  rw [Table.update_update]
  · simp only [add_assoc]
  · intro j; rfl

/-- Counting children and settling the parent commute. -/
theorem settleCompleted_bump (x : Txn) (f : FencedTask) (metadata : Metadata)
    (downloaded artifacts k : ℤ) (s : Store) :
    settleCompleted x f metadata downloaded artifacts (bump f.task.jobId k s) =
      bump f.task.jobId k (settleCompleted x f metadata downloaded artifacts s) := by
  simp only [settleCompleted, releaseLease, resetOrigin, finishAttempt, bump, Store.updateJobs,
    Store.updateTasks, Store.updateOrigins, Store.updateAttempts, Store.deleteOriginLeases]
  rw [Table.update_update, Table.update_update, Table.update_update, Table.update_update]
  all_goals intro j; rfl

/-- `t`, now succeeded, as the parent of what its page discovers. -/
def Succeeded (s : Store) (t : Task) : Prop :=
  ∃ parent ∈ s.tasks, parent.state = .succeeded ∧ parent.id = t.id ∧
    parent.jobId = t.jobId ∧ parent.depth = t.depth ∧ parent.originKey = t.originKey

theorem Settles.succeeded {t : Task} {downloaded artifacts : ℤ} {counted : Bool}
    {s s' : Store} (h : Settles t .succeeded downloaded artifacts counted s s') :
    Succeeded s' t := by
  obtain ⟨parent, hmem, -, hto⟩ := h.tasks.mem_new h.task.1
  rcases hto with ⟨-, hto⟩ | ⟨hne, -⟩
  · exact ⟨parent, hmem, hto.get Task.state fun _ => rfl, hto.get Task.id fun _ => rfl,
      hto.get Task.jobId fun _ => rfl, hto.get Task.depth fun _ => rfl,
      hto.get Task.originKey fun _ => rfl⟩
  · simp at hne

/-- The job of `f` after its settlement and `k` children. -/
def Counted (s : Store) (f : FencedTask) (k : ℤ) : Prop :=
  ∃ j ∈ s.jobs, j.id = f.task.jobId ∧ j.cancelRequestedAt = f.job.cancelRequestedAt ∧
    j.discoveredCount = f.job.discoveredCount + k ∧
    j.nextDiscoverySeq = f.job.nextDiscoverySeq + k ∧ j.maxPages = f.job.maxPages ∧
    j.config = f.job.config ∧ j.state.terminal = f.job.state.terminal

theorem Settles.counted {f : FencedTask} {downloaded artifacts : ℤ}
    {counted : Bool} {s s' : Store} (hf : Fenced s f)
    (h : Settles f.task .succeeded downloaded artifacts counted s s') :
    Counted s' f 0 := by
  obtain ⟨j, hj, -, hto⟩ := h.jobs.mem_new hf.job_mem
  rcases hto with ⟨-, hto⟩ | ⟨hne, -⟩
  · have hdisc := hto.get Job.discoveredCount fun _ => rfl
    have hseq := hto.get Job.nextDiscoverySeq fun _ => rfl
    exact ⟨j, hj, (hto.get Job.id fun _ => rfl).trans hf.job_id,
      hto.get Job.cancelRequestedAt fun _ => rfl, hdisc.trans (add_zero _).symm,
      hseq.trans (add_zero _).symm, hto.get Job.maxPages fun _ => rfl,
      hto.get Job.config fun _ => rfl, hto.get (fun j => j.state.terminal) Job.core_terminal⟩
  · simp [hf.job_id] at hne

theorem Counted.bump {f : FencedTask} {k : ℤ} {s : Store} (h : Counted s f k) (T : Table Task) :
    Counted (Lifecycle.bump f.task.jobId 1 { s with tasks := T }) f (k + 1) := by
  obtain ⟨j, hj, hid, hcancel, hdisc, hseq, hrest⟩ := h
  refine ⟨{ j with
    discoveredCount := j.discoveredCount + 1, nextDiscoverySeq := j.nextDiscoverySeq + 1 },
    ?_, hid, hcancel, ?_, ?_, hrest⟩
  · simp only [Lifecycle.bump, Store.updateJobs, Table.mem_update]
    exact ⟨j, hj, by simp [hid]⟩
  · simp only [hdisc, add_assoc]
  · simp only [hseq, add_assoc]

/-- A task a page of `f` adds as its `k`-th child. -/
structure ChildOf (f : FencedTask) (k : ℤ) (child : Task) : Prop where
  jobId : child.jobId = f.task.jobId
  sequence : child.discoverySeq = f.job.nextDiscoverySeq + k
  depth : child.depth = f.task.depth + 1
  originKey : child.originKey = f.task.originKey
  parent : child.discoveredFromTaskId = some f.task.id
  state : child.state = .pending ∧ child.leaseToken = none ∧ child.byteBudgetReserved = 0 ∧
    child.artifactBudgetReserved = 0

/-- The label of a discovery: it stands out when the job has ended. -/
def discoveryEvent (f : FencedTask) : Event :=
  if f.job.state.terminal then .revived f.task.jobId else .ordinary

/-- One more child of a completed page. -/
theorem discover_trace {ok : Event → Prop} {f : FencedTask} {k : ℤ} {child : Task} {s : Store}
    {T : Table Task} (hok : ok (discoveryEvent f)) (hparent : Succeeded s f.task)
    (hjob : Counted s f k) (hcancel : f.job.cancelRequestedAt = none) (hchild : ChildOf f k child)
    (hroom : f.job.discoveredCount + k < f.job.maxPages)
    (hdepth : f.task.depth + 1 ≤ f.job.config.maxDepth)
    (hT : s.tasks.insert? child = some T) :
    Trace Action ok s (bump f.task.jobId 1 { s with tasks := T }) := by
  obtain ⟨parent, hpmem, hpstate, hpid, hpjob, hpdepth, hporigin⟩ := hparent
  obtain ⟨j, hj, hjid, hjcancel, hdisc, hseq, hpages, hconfig, hterminal⟩ := hjob
  have hdiscovers : Discovers j parent child s (bump f.task.jobId 1 { s with tasks := T }) :=
    { job := ⟨hj, hjid.trans hpjob.symm, hjcancel.trans hcancel⟩
      parent_ok := ⟨hpmem, hpstate⟩
      room := by rw [hdisc, hpages]; exact hroom
      place := ⟨hchild.jobId.trans hpjob.symm, by rw [hchild.sequence, hseq],
        by rw [hchild.depth, hpdepth], by rw [hchild.depth, hconfig]; exact hdepth,
        hchild.originKey.trans hporigin.symm, by rw [hchild.parent, hpid]⟩
      state := hchild.state
      jobs := by
        rw [hpjob]
        refine Table.Changed.of_update fun j _ _ => ?_
        rfl
      tasks := hT, leases := rfl, attempts := rfl, usage := rfl }
  refine Trace.single hok (.discover _ j parent child (fun hend => ?_) hdiscovers)
  rw [hterminal] at hend
  rw [discoveryEvent, if_pos hend, hjid]

/-- The inserts of `_insert_discovered`, seen after the settlement. -/
theorem insertLinks_trace {ok : Event → Prop} {url : UrlIdentity} {x : Txn} {f : FencedTask}
    (metadata : Metadata) (downloaded artifacts : ℤ) {remaining : ℤ} {urls : List String}
    {draw : ℕ} {k n : ℤ} {s s' : Store} (hok : ok (discoveryEvent f)) (hf : Fenced s f)
    (hcancel : f.job.cancelRequestedAt = none)
    (hroom : remaining = f.job.maxPages - f.job.discoveredCount)
    (hdepth : f.task.depth + 1 ≤ f.job.config.maxDepth)
    (hparent : Succeeded (settleCompleted x f metadata downloaded artifacts s) f.task)
    (hjob : Counted (bump f.task.jobId k
      (settleCompleted x f metadata downloaded artifacts s)) f k)
    (h : insertLinks url x f remaining urls draw k s = .ok (n, s')) :
    (∃ T, s' = { s with tasks := T }) ∧
    Trace Action ok
      (bump f.task.jobId k (settleCompleted x f metadata downloaded artifacts s))
      (bump f.task.jobId n (settleCompleted x f metadata downloaded artifacts s')) := by
  induction urls generalizing draw k s with
  | nil =>
      obtain ⟨rfl, rfl⟩ := pure_ok.mp h
      exact ⟨⟨s.tasks, rfl⟩, Trace.refl⟩
  | cons original urls ih =>
      unfold insertLinks at h
      split at h
      · obtain ⟨rfl, rfl⟩ := pure_ok.mp h
        exact ⟨⟨s.tasks, rfl⟩, Trace.refl⟩
      · rename_i hfull
        split at h
        · exact ih hf hparent hjob h
        · rename_i hscope
          simp only [bind_ok] at h
          obtain ⟨inserted, s₁, h₁, h₂⟩ := h
          rcases insertTaskOnce_ok h₁ with ⟨rfl, rfl, -⟩ | ⟨rfl, -, T, hT, rfl⟩
          · exact ih hf hparent hjob h₂
          · rw [if_pos rfl] at h₂
            have horigin : url.originKey (url.normalizeUrl original) = f.task.originKey := by
              simp only [inScope, Bool.not_eq_true', Bool.not_eq_false, Bool.and_eq_true,
                decide_eq_true_eq] at hscope
              exact hscope.2
            have hchild : ChildOf f k (discoveredTask url x.now f (x.uuid draw) original
                (f.job.nextDiscoverySeq + k)) :=
              ⟨rfl, rfl, rfl, horigin, rfl, rfl, rfl, rfl, rfl⟩
            -- The settlement does not reach the new row: it holds no token.
            have hT' : (bump f.task.jobId k
                (settleCompleted x f metadata downloaded artifacts s)).tasks.insert?
                  (discoveredTask url x.now f (x.uuid draw) original
                    (f.job.nextDiscoverySeq + k)) =
                some (settleCompleted x f metadata downloaded artifacts
                  { s with tasks := T }).tasks := by
              refine Table.insert?_update ?_ hT ?_
              · intro t; rfl
              · simp [discoveredTask]
            have hparent' : Succeeded (bump f.task.jobId k
                (settleCompleted x f metadata downloaded artifacts s)) f.task := hparent
            have hstep := discover_trace hok hparent' hjob hcancel hchild (by omega) hdepth hT'
            have hnext : bump f.task.jobId 1
                { bump f.task.jobId k (settleCompleted x f metadata downloaded artifacts s) with
                  tasks := (settleCompleted x f metadata downloaded artifacts
                    { s with tasks := T }).tasks } =
                bump f.task.jobId (k + 1) (settleCompleted x f metadata downloaded artifacts
                  { s with tasks := T }) := by
              rw [bump_succ]
              rfl
            have hf' : Fenced { s with tasks := T } f :=
              ⟨⟨(Table.mem_of_insert? hT).mpr (Or.inl hf.mem), hf.leased, hf.token⟩,
                hf.job_mem, hf.job_id⟩
            have hparent'' : Succeeded (settleCompleted x f metadata downloaded artifacts
                { s with tasks := T }) f.task := by
              obtain ⟨p, hp, hrest⟩ := hparent
              exact ⟨p, (Table.mem_of_insert? hT').mpr (Or.inl hp), hrest⟩
            have hjob' := hjob.bump (settleCompleted x f metadata downloaded artifacts
              { s with tasks := T }).tasks
            rw [hnext] at hstep hjob'
            obtain ⟨⟨T', hT''⟩, hrest⟩ := ih hf' hparent'' hjob' h₂
            exact ⟨⟨T', hT''⟩, hstep.trans hrest⟩

/-- The children of a page and the settlement of its lease. -/
theorem settleDiscovered_trace {ok : Event → Prop} {url : UrlIdentity} {x : Txn} {f : FencedTask}
    {metadata : Metadata} {downloaded artifacts : ℤ} {urls : List String} {s s' : Store}
    {b : PUnit} (hok : ok .ordinary) (hrevived : ok (discoveryEvent f)) (hf : Active x.now s f)
    (hd : 0 ≤ f.task.byteBudgetReserved → 0 ≤ downloaded ∧ downloaded ≤ f.task.byteBudgetReserved)
    (ha : 0 ≤ f.task.artifactBudgetReserved →
      0 ≤ artifacts ∧ artifacts ≤ f.task.artifactBudgetReserved)
    (h : insertDiscovered url x f urls s = .ok (b, s')) :
    Trace Action ok s (settleCompleted x f metadata downloaded artifacts s') := by
  have hsettles := settleCompleted_settles x metadata hf.toFenced hd ha
  have hsettle : Trace Action ok s (settleCompleted x f metadata downloaded artifacts s) :=
    Trace.single hok (.settle _ _ _ _ _ _ (by simp) (by simp) (by simp [TaskState.terminal]) hsettles)
  unfold insertDiscovered at h
  split at h
  · obtain ⟨-, rfl⟩ := pure_ok.mp h
    exact hsettle
  · rename_i hdepth
    simp only at h
    split at h
    · obtain ⟨-, rfl⟩ := pure_ok.mp h
      exact hsettle
    · simp only [bind_ok] at h
      obtain ⟨n, s₁, h₁, h₂⟩ := h
      have hcounted : Counted (bump f.task.jobId 0
          (settleCompleted x f metadata downloaded artifacts s)) f 0 := by
        rw [bump_zero]
        exact hsettles.counted hf.toFenced
      have hlinks := insertLinks_trace metadata downloaded artifacts hrevived hf.toFenced
        hf.uncancelled rfl (by omega) hsettles.succeeded hcounted h₁
      rw [bump_zero, ← settleCompleted_bump] at hlinks
      obtain ⟨⟨T, rfl⟩, htrace⟩ := hlinks
      have hbump : s' = bump f.task.jobId n { s with tasks := T } := by
        split at h₂
        · rw [exec_ok] at h₂
          rw [← h₂]
          simp only [bump, Store.updateJobs]
          congr 1
          apply Table.ext
          simp only [Table.update]
          refine List.map_congr_left fun j hj => ?_
          by_cases hid : j.id = f.task.jobId
          · rw [hf.job_unique j hj hid]
          · simp [hid]
        · rename_i hzero
          have hn : n = 0 := by simpa using hzero
          rw [hn, bump_zero]
          exact (pure_ok.mp h₂).2.symm
      rw [hbump]
      exact hsettle.trans htrace

/-- A report over its allowances ends the lease and drains the job. -/
theorem rejectOverBudget_trace {ok : Event → Prop} (hok : ok .ordinary) {x : Txn} {f : FencedTask}
    {metadata : Metadata} {reason : String} {s : Store} (hf : Fenced s f) :
    Trace Action ok s (rejectOverBudget x f metadata reason s) := by
  have hexit : ok (exitEvent f .permanentFailed) := hok
  simp only [rejectOverBudget, charge_terminalize]
  exact (exit_trace hok hexit hf (Or.inr (Or.inl rfl)) (actualBytes_ok f.task metadata)).trans
    (drainUnleased_trace hok ..)

theorem reportedBytes_nonneg (metadata : Metadata) : 0 ≤ (reportedBytes metadata).2 := by
  unfold reportedBytes
  split <;> simp

theorem completeTask_trace {ok : Event → Prop} (hok : ok .ordinary) {url : UrlIdentity} {x : Txn}
    {taskId token : Uuid} {result : TaskResult} {s s' : Store} {b : Bool}
    (hrevived : ∀ f, Active x.now s f → f.job.state.terminal = true → ok (.revived f.task.jobId))
    (h : completeTask url x taskId token result s = .ok (b, s')) : Trace Action ok s s' := by
  simp only [completeTask, bind_ok] at h
  obtain ⟨r, s₁, h₁, h⟩ := h
  rcases activeLease_ok hok h₁ with ⟨rfl, htrace⟩ | ⟨f, rfl, rfl, hf, -⟩
  · obtain ⟨-, rfl⟩ := pure_ok.mp h
    exact htrace
  · simp only at h
    split at h
    · simp only [bind_ok, exec_ok, pure_ok] at h
      obtain ⟨_, _, rfl, -, rfl⟩ := h
      exact rejectOverBudget_trace hok hf.toFenced
    · rename_i hbudget
      simp only [bind_ok, read_ok] at h
      obtain ⟨found, _, ⟨-, rfl⟩, h⟩ := h
      split at h
      · obtain ⟨-, rfl⟩ := pure_ok.mp h
        exact Trace.refl
      · simp only [bind_ok, attempt_ok, exec_ok, pure_ok] at h
        obtain ⟨_, s₂, h₂, _, s₃, h₃, _, _, rfl, -, rfl⟩ := h
        obtain ⟨R, -, rfl⟩ := Option.map_eq_some_iff.mp h₂
        have hresult : Trace Action ok s₁ { s₁ with results := R } :=
          Frames.trace hok ⟨rfl, rfl, rfl, rfl, rfl⟩
        have hevent : ok (discoveryEvent f) := by
          unfold discoveryEvent
          split
          · exact hrevived f hf (by assumption)
          · exact hok
        have hf' : Active x.now { s₁ with results := R } f :=
          ⟨⟨⟨hf.mem, hf.leased, hf.token⟩, hf.job_mem, hf.job_id⟩, hf.uncancelled, hf.timely⟩
        refine hresult.trans (settleDiscovered_trace hok hevent hf'
          (actualBytes_ok f.task result.metadata) (fun _ => ?_) h₃)
        have hscreenshot := reportedBytes_nonneg result.metadata
        have hsize : (0 : ℤ) ≤ result.markdown.utf8ByteSize := Int.natCast_nonneg _
        omega

example : (run Sample.identity {} Sample.crawl).tasks.rows.map Task.state =
    [.succeeded, .pending] := by
  decide +kernel

end Lifecycle

end CrawlTrove
