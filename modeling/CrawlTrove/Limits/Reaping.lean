import CrawlTrove.Lifecycle.Refinement
import CrawlTrove.Limits.WindingDown
import CrawlTrove.Protocol.Failure

/-!
# Reaping within the failure limit

One pass of `reap_expired_leases` fails some leases and puts others back. A
failure drains what its job has queued so far, so a job that reaches its limit
in the middle of a pass is overrun afterwards only if the pass puts a lease
back and no lease of the job fails after it.
-/

namespace CrawlTrove

open Relational Transaction

open Lifecycle Protocol

namespace Limits

/-- The job has at most `n` failures left. -/
def Spent (jobId : Uuid) (n : ℤ) (s : Store) : Prop :=
  ∃ j ∈ s.jobs, j.id = jobId ∧ j.config.maxFailures ≤ j.failedCount + n

instance (jobId : Uuid) (n : ℤ) (s : Store) : Decidable (Spent jobId n s) :=
  inferInstanceAs (Decidable (∃ j ∈ s.jobs, _))

theorem spent_zero {jobId : Uuid} {s : Store} : Spent jobId 0 s ↔ AtLimit jobId s := by
  simp [Spent, AtLimit]

/-- The lease a pass finds when its turn comes. -/
def lease? (s : Store) (lease : Uuid × Option Uuid) : Option FencedTask :=
  lease.2.bind (s.fencedTask lease.1)

/-- The pass fails the lease. -/
def FailsReaped (x : Txn) (f : FencedTask) : Prop :=
  f.job.cancelRequestedAt = none ∧
    (f.job.deadlineAt ≤ x.now ∨ f.task.maxAttempts ≤ f.task.attemptCount)

instance (x : Txn) (f : FencedTask) : Decidable (FailsReaped x f) :=
  inferInstanceAs (Decidable (_ ∧ _))

/-- The pass puts the lease back. -/
def RequeuesReaped (x : Txn) (f : FencedTask) : Prop :=
  Protocol.Current x.now f ∧ f.task.attemptCount < f.task.maxAttempts

/-- The pass fails the lease on this job. -/
def failsIn (x : Txn) (s : Store) (jobId : Uuid) (lease : Uuid × Option Uuid) : Bool :=
  (lease? s lease).any fun f => decide (FailsReaped x f) && decide (f.task.jobId = jobId)

/-- No lease is put back in a job that has reached its limit by then, unless
another lease of the job fails after it. -/
def ReapsWithin (x : Txn) (s : Store) (leases : List (Uuid × Option Uuid)) : Prop :=
  ∀ before lease after, leases = before ++ lease :: after → ∀ f ∈ lease? s lease,
    RequeuesReaped x f → Spent f.task.jobId (before.countP (failsIn x s f.task.jobId)) s →
      ∃ later ∈ after, failsIn x s f.task.jobId later = true

/-! ## What reaping one lease leaves of the others -/

/-- What the pass reads of a job. -/
def limits (j : Job) : Uuid × Time × Option Time × CrawlConfig :=
  (j.id, j.deadlineAt, j.cancelRequestedAt, j.config)

/-- Other leases stay, and no job comes closer to its limit than `δ` says. -/
structure Passes (id : Uuid) (δ : Uuid → ℤ) (s s' : Store) : Prop where
  tasks : ∀ t : Task, t.state = .leased → t.id ≠ id → (t ∈ s'.tasks ↔ t ∈ s.tasks)
  kept : ∀ j ∈ s.jobs, ∃ j' ∈ s'.jobs, limits j' = limits j
  came : ∀ j' ∈ s'.jobs, ∃ j ∈ s.jobs, limits j' = limits j
  spent : ∀ jobId n, 0 ≤ n → Spent jobId n s' → Spent jobId (n + δ jobId) s

namespace Passes

variable {id : Uuid} {δ δ' : Uuid → ℤ} {s s' s'' : Store}

instance : Std.Refl (Passes id fun _ => 0) where
  refl _ := ⟨fun _ _ _ => Iff.rfl, fun j hj => ⟨j, hj, rfl⟩, fun j hj => ⟨j, hj, rfl⟩,
    fun _ n _ h => by rwa [add_zero]⟩

theorem trans (h : Passes id δ s s') (h' : Passes id δ' s' s'') (hδ' : ∀ jobId, 0 ≤ δ' jobId) :
    Passes id (fun jobId => δ' jobId + δ jobId) s s'' where
  tasks t hleased hid := (h'.tasks t hleased hid).trans (h.tasks t hleased hid)
  kept j hj := by
    obtain ⟨j', hj', hsame⟩ := h.kept j hj
    obtain ⟨j'', hj'', hsame'⟩ := h'.kept j' hj'
    exact ⟨j'', hj'', hsame'.trans hsame⟩
  came j'' hj'' := by
    obtain ⟨j', hj', hsame'⟩ := h'.came j'' hj''
    obtain ⟨j, hj, hsame⟩ := h.came j' hj'
    exact ⟨j, hj, hsame'.trans hsame⟩
  spent jobId n hn hspent := by
    rw [← add_assoc]
    exact h.spent jobId _ (add_nonneg hn (hδ' jobId)) (h'.spent jobId n hn hspent)

instance : IsTrans Store (Passes id fun _ => 0) where
  trans _ _ _ h h' := by
    have hboth := h.trans h' fun _ => le_refl 0
    simpa using hboth

/-- Stores with the same jobs and tasks. -/
theorem of_tables (hjobs : s'.jobs = s.jobs) (htasks : s'.tasks = s.tasks) :
    Passes id (fun _ => 0) s s' where
  tasks t _ _ := by rw [htasks]
  kept j hj := ⟨j, hjobs.symm ▸ hj, rfl⟩
  came j hj := ⟨j, hjobs ▸ hj, rfl⟩
  spent jobId n _ hspent := by
    unfold Spent at hspent ⊢
    rwa [hjobs, ← add_zero n] at hspent

/-- Stores that differ in the columns of some tasks: of the lease itself, and
of tasks that are not leased. -/
theorem of_tasks {p : Task → Bool} {f : Task → Task}
    (htasks : s'.tasks.rows = s.tasks.rows.map fun t => if p t then f t else t)
    (hjobs : s'.jobs = s.jobs) (hp : ∀ t, p t = true → t.id = id ∨ t.state ≠ .leased)
    (hf : ∀ t, p t = true → (f t).id = id ∨ (f t).state ≠ .leased) :
    Passes id (fun _ => 0) s s' where
  tasks t hleased hid := by
    rw [Table.mem_def, htasks, List.mem_map, Table.mem_def]
    constructor
    · rintro ⟨u, hu, hrow⟩
      by_cases hpu : p u = true
      · rw [if_pos hpu] at hrow
        rcases hf u hpu with hsame | hstate
        · exact absurd (hrow ▸ hsame) hid
        · exact absurd (hrow ▸ hleased) hstate
      · rw [if_neg hpu] at hrow
        exact hrow ▸ hu
    · intro ht
      refine ⟨t, ht, if_neg fun hpt => ?_⟩
      rcases hp t hpt with hsame | hstate
      · exact hid hsame
      · exact hstate hleased
  kept j hj := ⟨j, hjobs.symm ▸ hj, rfl⟩
  came j hj := ⟨j, hjobs ▸ hj, rfl⟩
  spent jobId n _ hspent := by
    unfold Spent at hspent ⊢
    rwa [hjobs, ← add_zero n] at hspent

/-- Stores that differ in the columns of some jobs, which may have failed more
often. -/
theorem of_jobs {p : Job → Bool} {f : Job → Job}
    (hjobs : s'.jobs.rows = s.jobs.rows.map fun j => if p j then f j else j)
    (htasks : s'.tasks = s.tasks) (hf : ∀ j, limits (f j) = limits j)
    (hδ : ∀ jobId, 0 ≤ δ jobId)
    (hcount : ∀ j, p j = true → (f j).failedCount ≤ j.failedCount + δ j.id) :
    Passes id δ s s' where
  tasks t _ _ := by rw [htasks]
  kept j hj := by
    have hmem : (if p j then f j else j) ∈ s'.jobs := by
      rw [Table.mem_def, hjobs]
      exact List.mem_map_of_mem hj
    refine ⟨_, hmem, ?_⟩
    split
    · exact hf j
    · rfl
  came j' hj' := by
    rw [Table.mem_def, hjobs] at hj'
    obtain ⟨j, hj, rfl⟩ := List.mem_map.mp hj'
    refine ⟨j, hj, ?_⟩
    split
    · exact hf j
    · rfl
  spent jobId n _ hspent := by
    obtain ⟨j', hj', hid, hlimit⟩ := hspent
    rw [Table.mem_def, hjobs] at hj'
    obtain ⟨j, hj, hrow⟩ := List.mem_map.mp hj'
    have hsame : limits j' = limits j := by
      rw [← hrow]
      split
      · exact hf j
      · rfl
    have hconfig : j'.config = j.config := congrArg (fun p => p.2.2.2) hsame
    have hjid : j.id = jobId := (congrArg Prod.fst hsame).symm.trans hid
    have hfailed : j'.failedCount ≤ j.failedCount + δ jobId := by
      rw [← hrow, ← hjid]
      split
      · rename_i hp
        exact hcount j hp
      · exact le_add_of_nonneg_right (hδ j.id)
    refine ⟨j, hj, hjid, ?_⟩
    rw [← hconfig]
    linarith

end Passes

section Pass

variable {id : Uuid} {s s' : Store} {x : Txn} {f : FencedTask}

/-- The failure limit drains a job only once it has been reached. -/
theorem enforce_passes (now : Time) (jobId : Uuid) (s : Store) :
    Passes id (fun _ => 0) s (enforceFailureLimit now jobId s) := by
  unfold enforceFailureLimit
  cases hjob : s.job? jobId with
  | none => exact refl_of _ s
  | some job =>
      obtain ⟨hmem, hid⟩ := Store.job?_eq_some.mp hjob
      dsimp only
      split
      · rename_i hlimit
        rw [drainUnleased_eq]
        have htasks : Passes id (fun _ => 0) s (s.updateTasks
            (fun t => t.jobId = jobId && t.state.queued)
            (drainTask now "max_failures_exceeded")) := by
          refine Passes.of_tasks rfl rfl (fun t hp => Or.inr fun hleased => ?_)
            fun t _ => Or.inr fun h => nomatch h
          rw [hleased] at hp
          simp [TaskState.queued] at hp
        let count := s.tasks.count fun t => t.jobId = jobId && t.state.queued
        have hjobs : ∀ s' : Store, s'.jobs = s.jobs → Passes id (fun _ => 0) s'
            (s'.updateJobs (fun j => j.id = jobId)
              (drainRow "max_failures_exceeded" count)) := by
          intro s' hs'
          refine ⟨fun _ _ _ => Iff.rfl, fun j hj => ?_, fun j' hj' => ?_, ?_⟩
          · refine ⟨_, List.mem_map_of_mem hj, ?_⟩
            split
            · rfl
            · rfl
          · obtain ⟨j, hj, rfl⟩ := List.mem_map.mp hj'
            refine ⟨j, hj, ?_⟩
            split
            · rfl
            · rfl
          · rintro other n hn ⟨j', hj', hid', hspent⟩
            obtain ⟨j, hj, hrow⟩ := List.mem_map.mp hj'
            by_cases hp : decide (j.id = jobId) = true
            · rw [if_pos hp] at hrow
              have hsame : j = job := job_eq_of_id (hs' ▸ hj) hmem
                ((of_decide_eq_true hp).trans hid.symm)
              refine ⟨j, hj, by rw [← hid', ← hrow]; rfl, ?_⟩
              rw [hsame]
              linarith
            · rw [if_neg hp] at hrow
              exact ⟨j, hj, hrow ▸ hid', by rw [hrow]; linarith⟩
        exact trans_of _ htasks (hjobs _ rfl)
      · exact refl_of _ s

/-- The failures a state counts, job by job. -/
def failuresOf (f : FencedTask) (state : TaskState) (jobId : Uuid) : ℤ :=
  if state = .permanentFailed ∧ jobId = f.task.jobId then 1 else 0

theorem terminalize_passes (now : Time) (f : FencedTask) (state : TaskState)
    (errorClass errorCode : Option String) (s : Store) :
    Passes f.task.id (failuresOf f state) s (terminalize now f state errorClass errorCode s) := by
  let s₁ := releaseLease f (terminalizeTask now f state errorClass errorCode s)
  have hfirst : Passes f.task.id (fun _ => 0) s s₁ := by
    have htask : Passes f.task.id (fun _ => 0) s
        (terminalizeTask now f state errorClass errorCode s) := by
      refine Passes.of_tasks rfl rfl (fun t hp => ?_) fun t hp => ?_
      · simp only [Bool.and_eq_true, decide_eq_true_eq] at hp
        exact Or.inl hp.1
      · simp only [Bool.and_eq_true, decide_eq_true_eq] at hp
        exact Or.inl hp.1
    refine trans_of _ htask ?_
    refine Passes.of_jobs rfl rfl (fun _ => rfl) (fun _ => le_refl 0) fun j _ => ?_
    exact (add_zero _).symm.le
  have hcount : Passes f.task.id (failuresOf f state) s₁
      (terminalizeJob now f.task.jobId state s₁) := by
    refine Passes.of_jobs rfl rfl (fun _ => rfl) (fun jobId => ?_) fun j hj => ?_
    · unfold failuresOf
      split <;> norm_num
    · show j.failedCount + (if state = .permanentFailed then 1 else 0) ≤ _
      have hid : j.id = f.task.jobId := of_decide_eq_true hj
      simp [failuresOf, hid]
  have hrest : Passes f.task.id (fun _ => 0) (terminalizeJob now f.task.jobId state s₁)
      (terminalize now f state errorClass errorCode s) := by
    show Passes _ _ _ (finishAttempt now f.task state.text { errorCode } 0 0
      (if state = .permanentFailed then _ else _))
    split
    · refine trans_of _ (enforce_passes now f.task.jobId _) ?_
      exact Passes.of_tables rfl rfl
    · exact Passes.of_tables rfl rfl
  have hall := (hfirst.trans hcount fun jobId => ?_).trans hrest fun _ => le_refl 0
  · simpa using hall
  · unfold failuresOf
    split <;> norm_num

/-- The pass ends the lease: what it fails is counted, and drained at once. -/
structure EndsReaped (x : Txn) (f : FencedTask) (s s' : Store) : Prop where
  passes : Passes f.task.id
    (fun jobId => if FailsReaped x f ∧ jobId = f.task.jobId then 1 else 0) s s'
  winds : WindsDown s s'
  checked : FailsReaped x f → ¬ Overrun f.task.jobId s'

/-- The tables a change of ledger and attempts leaves alone. -/
def worked (s : Store) : Table Job × Table Task × Table LiveSession := (s.jobs, s.tasks, s.sessions)

theorem endsReaped_of_terminalize {state : TaskState} {errorClass errorCode : Option String}
    (hstate : state.queued = false) (hfails : state = .permanentFailed ↔ FailsReaped x f)
    (hsame : Frame worked (terminalize x.now f state errorClass errorCode s) s') :
    EndsReaped x f s s' := by
  have hjobs : s'.jobs = (terminalize x.now f state errorClass errorCode s).jobs :=
    congrArg Prod.fst hsame
  have htasks : s'.tasks = (terminalize x.now f state errorClass errorCode s).tasks :=
    congrArg (fun p => p.2.1) hsame
  have hsessions : s'.sessions = (terminalize x.now f state errorClass errorCode s).sessions :=
    congrArg (fun p => p.2.2) hsame
  constructor
  · have hpasses := (terminalize_passes x.now f state errorClass errorCode s).trans
      (Passes.of_tables hjobs htasks) fun _ => le_refl 0
    unfold failuresOf at hpasses
    simp only [zero_add, hfails] at hpasses
    exact hpasses
  · exact (terminalize_winds x.now f state errorClass errorCode s hstate).trans
      (WindsBut.of_tables hjobs htasks hsessions)
  · intro hfailed ho
    have ho' := shrinks_of_tables hjobs htasks _ ho
    obtain rfl := hfails.mpr hfailed
    exact not_overrun_enforce _ _ _ (shrinks_of_tables rfl rfl _ ho')

theorem reconcileAbandoned_frame (x : Txn) (only : Option Uuid) :
    Steps (Frame worked) (reconcileAbandoned x only) :=
  reconcileAbandoned_steps (fun _ _ _ => rfl) x only

/-- One iteration of the pass: the lease is gone, ends, or is put back. -/
theorem reapLease_cases {lease : Uuid × Option Uuid} {b : Bool}
    (h : reapLease x lease s = .ok (b, s')) :
    (lease? s lease = none ∧ s' = s) ∨
      ∃ f, lease? s lease = some f ∧
        (EndsReaped x f s s' ∧ ¬ RequeuesReaped x f ∨
          RequeuesReaped x f ∧ ¬ FailsReaped x f ∧ s' = requeueReaped x f s) := by
  simp only [reapLease, bind_ok, read_ok] at h
  obtain ⟨found, _, ⟨hfound, rfl⟩, h⟩ := h
  cases found with
  | none =>
      obtain ⟨-, rfl⟩ := pure_ok.mp h
      exact Or.inl ⟨hfound, rfl⟩
  | some f =>
      refine Or.inr ⟨f, hfound, ?_⟩
      obtain ⟨rejected, s₁, hreject, h⟩ := bind_ok.mp h
      unfold rejectInactiveLease at hreject
      split at hreject
      · rename_i hcancelled
        simp only [bind_ok, exec_ok, pure_ok] at hreject
        obtain ⟨_, _, rfl, _, s₂, hreconcile, rfl, rfl⟩ := hreject
        rw [if_pos rfl] at h
        obtain ⟨-, rfl⟩ := pure_ok.mp h
        have hset : ¬ f.job.cancelRequestedAt = none := by
          simpa [Option.isSome_iff_ne_none] using hcancelled
        refine Or.inl ⟨endsReaped_of_terminalize rfl (iff_of_false (by decide) ?_)
          (reconcileAbandoned_frame x _ hreconcile), fun hrequeues => hset hrequeues.1.1⟩
        exact fun hfails => hset hfails.1
      · rename_i hactive
        have hnone : f.job.cancelRequestedAt = none := by simpa using hactive
        split at hreject
        · rename_i hlate
          simp only [bind_ok, exec_ok, pure_ok] at hreject
          obtain ⟨_, _, rfl, _, s₂, hreconcile, rfl, rfl⟩ := hreject
          rw [if_pos rfl] at h
          obtain ⟨-, rfl⟩ := pure_ok.mp h
          refine Or.inl ⟨endsReaped_of_terminalize rfl (iff_of_true rfl ⟨hnone, Or.inl hlate⟩)
            (reconcileAbandoned_frame x _ hreconcile), fun hrequeues => ?_⟩
          exact absurd hrequeues.1.2 (not_lt.mpr hlate)
        · rename_i htimely
          obtain ⟨rfl, rfl⟩ := pure_ok.mp hreject
          rw [if_neg (by simp)] at h
          split at h
          · rename_i hlast
            simp only [bind_ok, exec_ok, pure_ok] at h
            obtain ⟨_, _, rfl, -, rfl⟩ := h
            refine Or.inl ⟨endsReaped_of_terminalize rfl (iff_of_true rfl ⟨hnone, Or.inr hlast⟩)
              rfl, fun hrequeues => ?_⟩
            exact absurd hrequeues.2 (not_lt.mpr hlast)
          · rename_i hleft
            simp only [bind_ok, exec_ok, pure_ok] at h
            obtain ⟨_, _, rfl, -, rfl⟩ := h
            refine Or.inr ⟨⟨⟨hnone, not_le.mp htimely⟩, not_le.mp hleft⟩, fun hfails => ?_, rfl⟩
            exact hfails.2.elim htimely hleft

/-! ## The rest of the pass -/

theorem lease?_eq_some {lease : Uuid × Option Uuid} :
    lease? s lease = some f ↔ lease.2 = some f.token ∧ f.task.id = lease.1 ∧ Fenced s f := by
  unfold lease?
  rw [Option.bind_eq_some_iff]
  constructor
  · rintro ⟨token, htoken, hfound⟩
    obtain ⟨hf, hid, rfl⟩ := Fenced.of_fencedTask hfound
    exact ⟨htoken, hid, hf⟩
  · rintro ⟨htoken, hid, hf⟩
    exact ⟨f.token, htoken, hid ▸ hf.fencedTask_eq⟩

/-- Two rows of one lease that the pass treats alike. -/
def Alike (f g : FencedTask) : Prop := f.task = g.task ∧ limits f.job = limits g.job

theorem Alike.fails {g : FencedTask} (h : Alike f g) : FailsReaped x f ↔ FailsReaped x g := by
  obtain ⟨htask, hlimits⟩ := h
  simp only [limits, Prod.mk.injEq] at hlimits
  unfold FailsReaped
  rw [htask, hlimits.2.1, hlimits.2.2.1]

theorem Alike.requeues {g : FencedTask} (h : Alike f g) :
    RequeuesReaped x f ↔ RequeuesReaped x g := by
  obtain ⟨htask, hlimits⟩ := h
  simp only [limits, Prod.mk.injEq] at hlimits
  unfold RequeuesReaped Protocol.Current
  rw [htask, hlimits.2.1, hlimits.2.2.1]

variable {δ : Uuid → ℤ} {lease : Uuid × Option Uuid}

/-- The lease was there before. -/
theorem Passes.lease_came (h : Passes id δ s s') (hother : lease.1 ≠ id)
    (hf : lease? s' lease = some f) : ∃ g, lease? s lease = some g ∧ Alike f g := by
  obtain ⟨htoken, hid, hfenced⟩ := lease?_eq_some.mp hf
  obtain ⟨j, hj, hsame⟩ := h.came f.job hfenced.job_mem
  refine ⟨⟨f.task, j, f.token⟩, lease?_eq_some.mpr ⟨htoken, hid, ?_⟩, rfl, hsame⟩
  have hmem := (h.tasks f.task hfenced.leased (hid.trans_ne hother)).mp hfenced.mem
  have hjid : j.id = f.job.id := (congrArg Prod.fst hsame).symm
  exact ⟨⟨hmem, hfenced.leased, hfenced.token⟩, hj, hjid.trans hfenced.job_id⟩

/-- The lease is still there. -/
theorem Passes.lease_kept (h : Passes id δ s s') (hother : lease.1 ≠ id)
    (hf : lease? s lease = some f) : ∃ g, lease? s' lease = some g ∧ Alike g f := by
  obtain ⟨htoken, hid, hfenced⟩ := lease?_eq_some.mp hf
  obtain ⟨j, hj, hsame⟩ := h.kept f.job hfenced.job_mem
  refine ⟨⟨f.task, j, f.token⟩, lease?_eq_some.mpr ⟨htoken, hid, ?_⟩, rfl, hsame⟩
  have hmem := (h.tasks f.task hfenced.leased (hid.trans_ne hother)).mpr hfenced.mem
  have hjid : j.id = f.job.id := congrArg Prod.fst hsame
  exact ⟨⟨hmem, hfenced.leased, hfenced.token⟩, hj, hjid.trans hfenced.job_id⟩

theorem failsIn_eq_true {jobId : Uuid} :
    failsIn x s jobId lease = true ↔
      ∃ f, lease? s lease = some f ∧ FailsReaped x f ∧ f.task.jobId = jobId := by
  simp [failsIn, Option.any_eq_true]

theorem Passes.failsIn_eq (h : Passes id δ s s') (hother : lease.1 ≠ id) (jobId : Uuid) :
    failsIn x s' jobId lease = failsIn x s jobId lease := by
  rw [Bool.eq_iff_iff, failsIn_eq_true, failsIn_eq_true]
  constructor
  · rintro ⟨f, hf, hfails, hjob⟩
    obtain ⟨g, hg, halike⟩ := h.lease_came hother hf
    exact ⟨g, hg, halike.fails.mp hfails, halike.1 ▸ hjob⟩
  · rintro ⟨f, hf, hfails, hjob⟩
    obtain ⟨g, hg, halike⟩ := h.lease_kept hother hf
    exact ⟨g, hg, halike.fails.mpr hfails, halike.1 ▸ hjob⟩

/-- The rest of the pass meets the condition of the whole. -/
theorem ReapsWithin.tail {leases : List (Uuid × Option Uuid)}
    (h : ReapsWithin x s (lease :: leases))
    (hpass : Passes lease.1 (fun jobId => if failsIn x s jobId lease then 1 else 0) s s')
    (hdistinct : ∀ l ∈ leases, l.1 ≠ lease.1) : ReapsWithin x s' leases := by
  intro before l after hsplit f hf hrequeues hspent
  have hother : ∀ k, k ∈ before ∨ k = l ∨ k ∈ after → k.1 ≠ lease.1 := by
    intro k hk
    refine hdistinct k ?_
    rw [hsplit, List.mem_append, List.mem_cons]
    exact hk
  obtain ⟨g, hg, halike⟩ := hpass.lease_came (hother l (Or.inr (Or.inl rfl))) hf
  have hjob : f.task.jobId = g.task.jobId := by rw [halike.1]
  have hcount : before.countP (failsIn x s' f.task.jobId) =
      before.countP (failsIn x s f.task.jobId) :=
    List.countP_congr fun k hk => by rw [hpass.failsIn_eq (hother k (Or.inl hk))]
  have hall : Spent g.task.jobId ((lease :: before).countP (failsIn x s g.task.jobId)) s := by
    have hbefore := hpass.spent f.task.jobId _ (Nat.cast_nonneg _) hspent
    rw [hcount, hjob] at hbefore
    rw [List.countP_cons]
    push_cast
    exact hbefore
  obtain ⟨later, hlater, hfails⟩ := h (lease :: before) l after (by rw [hsplit]; rfl) g hg
    (halike.requeues.mp hrequeues) hall
  refine ⟨later, hlater, ?_⟩
  rw [hpass.failsIn_eq (hother later (Or.inr (Or.inr hlater))), hjob]
  exact hfails

/-! ## A whole pass -/

/-- A lease that is put back leaves the others alone, and counts nothing. -/
theorem requeueReaped_passes : Passes f.task.id (fun _ => 0) s (requeueReaped x f s) := by
  have htask : Passes f.task.id (fun _ => 0) s
      (requeueTask f x.now "transport" "lease_expired" s) := by
    refine Passes.of_tasks rfl rfl (fun t hp => ?_) fun t hp => ?_
    · simp only [Bool.and_eq_true, decide_eq_true_eq] at hp
      exact Or.inl hp.1
    · simp only [Bool.and_eq_true, decide_eq_true_eq] at hp
      exact Or.inl hp.1
  have hlease : Passes f.task.id (fun _ => 0) (requeueTask f x.now "transport" "lease_expired" s)
      (releaseLease f (requeueTask f x.now "transport" "lease_expired" s)) := by
    refine Passes.of_jobs rfl rfl (fun _ => rfl) (fun _ => le_refl 0) fun j _ => ?_
    exact (add_zero _).symm.le
  refine trans_of _ htask (trans_of _ hlease ?_)
  exact Passes.of_tables rfl rfl

/-- One lease of the pass, as the leases after it see it. -/
theorem reapLease_passes {b : Bool} (h : reapLease x lease s = .ok (b, s')) :
    Passes lease.1 (fun jobId => if failsIn x s jobId lease then 1 else 0) s s' := by
  have hcounts : ∀ f, lease? s lease = some f →
      (fun jobId => if FailsReaped x f ∧ jobId = f.task.jobId then (1 : ℤ) else 0) =
        fun jobId => if failsIn x s jobId lease then 1 else 0 := by
    intro f hf
    funext jobId
    have hiff : failsIn x s jobId lease = true ↔ FailsReaped x f ∧ jobId = f.task.jobId := by
      rw [failsIn_eq_true]
      constructor
      · rintro ⟨g, hg, hfails, hjob⟩
        obtain rfl : f = g := Option.some.inj (hf.symm.trans hg)
        exact ⟨hfails, hjob.symm⟩
      · rintro ⟨hfails, hjob⟩
        exact ⟨f, hf, hfails, hjob.symm⟩
    simp only [hiff]
  rcases reapLease_cases h with ⟨hnone, hsame⟩ | ⟨f, hf, ⟨hends, -⟩ | ⟨hback, hnot, rfl⟩⟩
  · have hzero : ∀ jobId, failsIn x s jobId lease = false := fun jobId => by
      simp [failsIn, hnone]
    rw [hsame]
    simp only [hzero, Bool.false_eq_true, if_false]
    exact refl_of _ s
  · have hpasses := hends.passes
    rw [hcounts f hf, (lease?_eq_some.mp hf).2.1] at hpasses
    exact hpasses
  · have hpasses := requeueReaped_passes (x := x) (f := f) (s := s)
    rw [← hcounts f hf, ← (lease?_eq_some.mp hf).2.1]
    simp only [hnot, false_and, if_false]
    exact hpasses

/-- A pass within the limit leaves a job overrun only where a lease still to
come fails. -/
theorem reapLeases_sound {leases : List (Uuid × Option Uuid)} {n m : ℕ}
    (hdistinct : (leases.map Prod.fst).Nodup) (hwithin : ReapsWithin x s leases)
    (hopen : ∀ jobId, Overrun jobId s → ∃ l ∈ leases, failsIn x s jobId l = true)
    (h : reapLeases x leases n s = .ok (m, s')) : ∀ jobId, ¬ Overrun jobId s' := by
  induction leases generalizing s n with
  | nil =>
      obtain ⟨-, rfl⟩ := pure_ok.mp h
      intro jobId ho
      obtain ⟨l, hl, -⟩ := hopen jobId ho
      cases hl
  | cons lease leases ih =>
      obtain ⟨done, s₁, hlease, h⟩ := bind_ok.mp h
      rw [List.map_cons, List.nodup_cons] at hdistinct
      obtain ⟨hfresh, hdistinct⟩ := hdistinct
      have hother : ∀ l ∈ leases, l.1 ≠ lease.1 := fun l hl heq =>
        hfresh (heq ▸ List.mem_map_of_mem hl)
      have hpasses := reapLease_passes hlease
      refine ih hdistinct (hwithin.tail hpasses hother) (fun jobId ho => ?_) h
      -- A job overrun by now was so before, or has just been given its lease back.
      have hlater : (∃ l ∈ leases, failsIn x s jobId l = true) →
          ∃ l ∈ leases, failsIn x s₁ jobId l = true := by
        rintro ⟨l, hl, hfails⟩
        exact ⟨l, hl, by rw [hpasses.failsIn_eq (hother l hl)]; exact hfails⟩
      have hbefore : Overrun jobId s → failsIn x s jobId lease = false →
          ∃ l ∈ leases, failsIn x s₁ jobId l = true := by
        intro ho hnot
        obtain ⟨l, hl, hfails⟩ := hopen jobId ho
        rcases List.mem_cons.mp hl with rfl | hl
        · rw [hnot] at hfails
          cases hfails
        · exact hlater ⟨l, hl, hfails⟩
      rcases reapLease_cases hlease with ⟨hnone, rfl⟩ | ⟨f, hf, ⟨hends, -⟩ | ⟨hback, hnot, rfl⟩⟩
      · exact hbefore ho (by simp [failsIn, hnone])
      · refine hbefore (hends.winds.shrinks jobId ho) ?_
        rw [Bool.eq_false_iff, Ne, failsIn_eq_true]
        rintro ⟨g, hg, hfails, rfl⟩
        obtain rfl : f = g := Option.some.inj (hf.symm.trans hg)
        exact hends.checked hfails ho
      · have hmem : f.task ∈ s.tasks := (lease?_eq_some.mp hf).2.2.mem
        have hqueues : QueuesIn f.task.jobId s (requeueReaped x f s) := requeueReaped_queues hmem
        by_cases hspent : AtLimit f.task.jobId s
        · by_cases hjob : jobId = f.task.jobId
          · obtain ⟨l, hl, hfails⟩ := hwithin [] lease leases rfl f hf hback
              (by simpa using spent_zero.mpr hspent)
            exact hlater ⟨l, hl, hjob ▸ hfails⟩
          · refine hbefore ?_ ?_
            · refine ⟨hqueues.limit jobId ho.1, ?_⟩
              obtain ⟨t', ht', hp⟩ := Table.any_eq_true.mp ho.2
              simp only [Bool.and_eq_true, decide_eq_true_eq] at hp
              rcases hqueues.queued t' ht' hp.2 with hsame | ⟨t, ht, hsame, hstate⟩
              · exact absurd (hp.1.symm.trans hsame) hjob
              · refine Table.any_eq_true.mpr ⟨t, ht, ?_⟩
                simp only [Bool.and_eq_true, decide_eq_true_eq]
                exact ⟨hsame.trans hp.1, hstate⟩
            · rw [Bool.eq_false_iff, Ne, failsIn_eq_true]
              rintro ⟨g, hg, hfails, -⟩
              obtain rfl : f = g := Option.some.inj (hf.symm.trans hg)
              exact hnot hfails
        · refine hbefore (hqueues.shrinks hspent jobId ho) ?_
          rw [Bool.eq_false_iff, Ne, failsIn_eq_true]
          rintro ⟨g, hg, hfails, -⟩
          obtain rfl : f = g := Option.some.inj (hf.symm.trans hg)
          exact hnot hfails

theorem expiredLeases_distinct (x : Txn) (s : Store) :
    ((s.expiredLeases x).map Prod.fst).Nodup := by
  unfold Store.expiredLeases
  rw [List.map_map]
  refine List.Nodup.map_on (fun t ht u hu heq => ?_) (Table.nodup_select _ _)
  exact task_eq_of_id (Table.mem_select.mp ht).1 (Table.mem_select.mp hu).1 heq

/-- A pass within the limit leaves no job overrun. -/
theorem reapExpiredLeases_sound {n : ℕ} (hwithin : ReapsWithin x s (s.expiredLeases x))
    (hs : ∀ jobId, ¬ Overrun jobId s) (h : reapExpiredLeases x s = .ok (n, s')) :
    ∀ jobId, ¬ Overrun jobId s' := by
  simp only [reapExpiredLeases, bind_ok, read_ok] at h
  obtain ⟨_, s₁, hreconcile, expired, _, ⟨hexpired, rfl⟩, h⟩ := h
  have hframe : worked s₁ = worked s := reconcileAbandoned_frame x none hreconcile
  have hjobs : s₁.jobs = s.jobs := congrArg Prod.fst hframe
  have htasks : s₁.tasks = s.tasks := congrArg (fun p => p.2.1) hframe
  have hlease : ∀ lease, lease? s₁ lease = lease? s lease := by
    intro lease
    unfold lease? Store.fencedTask Store.job?
    rw [hjobs, htasks]
  have hleases : s₁.expiredLeases x = s.expiredLeases x := by
    unfold Store.expiredLeases
    rw [htasks]
  subst hexpired
  refine reapLeases_sound (expiredLeases_distinct x s₁) ?_ (fun jobId ho => ?_) h
  · rw [hleases]
    intro before lease after hsplit f hf hback hspent
    have hfails : ∀ jobId l, failsIn x s₁ jobId l = failsIn x s jobId l := fun jobId l => by
      unfold failsIn
      rw [hlease]
    rw [hlease] at hf
    simp only [hfails, funext (hfails f.task.jobId)] at hspent ⊢
    refine hwithin before lease after hsplit f hf hback ?_
    unfold Spent at hspent ⊢
    rwa [hjobs] at hspent
  · exact absurd (shrinks_of_tables hjobs htasks jobId ho) (hs jobId)

end Pass

end Limits

end CrawlTrove
