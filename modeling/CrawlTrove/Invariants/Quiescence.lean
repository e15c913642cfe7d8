import CrawlTrove.Invariants.Frontier

/-!
# Jobs that have stopped

Once a job is cancelled or has ended nothing of it is queued, and once it has
ended nothing of it is leased either (`Quiet`). Two things break this:
`worker_api.retry` and `worker_api.release` put the lease of a cancelled job
back into the queue, and `retry_failures` plants tasks in a job that has
stopped since its submission.
-/

namespace CrawlTrove

open Relational Transaction

namespace Lifecycle

/-! ## The invariant -/

/-- The job was cancelled or has ended. -/
def Stopped (j : Job) : Prop := j.cancelRequestedAt.isSome = true ∨ j.state.terminal = true

structure Quiet (jobId : Uuid) (s : Store) : Prop where
  stopped : ∀ j ∈ s.jobs, j.id = jobId → Stopped j →
    ∀ t ∈ s.tasks, t.jobId = jobId → t.state.queued = false
  ended : ∀ j ∈ s.jobs, j.id = jobId → j.state.terminal = true →
    ∀ t ∈ s.tasks, t.jobId = jobId → t.state ≠ .leased
  cancelled : ∀ j ∈ s.jobs, j.id = jobId → j.cancelRequestedAt.isSome = true →
    j.state.terminal = true → j.state = .cancelled

/-- The labels that leave a stopped job alone. -/
def Calm (jobId : Uuid) (e : Event) : Prop :=
  e ≠ .populated jobId ∧ e ≠ .revived jobId ∧ ∀ t, t.jobId = jobId → e ≠ .requeued t

/-- The rows of a job that has ended are terminal. -/
theorem Quiet.terminal {jobId : Uuid} {s : Store} (h : Quiet jobId s) {j : Job} {t : Task}
    (hj : j ∈ s.jobs) (hid : j.id = jobId) (hend : j.state.terminal = true) (ht : t ∈ s.tasks)
    (hjob : t.jobId = jobId) : t.state.terminal = true := by
  have hqueued := h.stopped j hj hid (Or.inr hend) t ht hjob
  have hleased := h.ended j hj hid hend t ht hjob
  cases hstate : t.state <;> simp_all [TaskState.queued, TaskState.terminal]

/-- A row of a stopped job stays out of the queue, and out of the leases
unless it holds one already. -/
theorem Quiet.task {jobId : Uuid} {s : Store} (h : Quiet jobId s) {e : Event} {s' : Store}
    (he : Calm jobId e) (ha : Action s e s') {j : Job} (hj : j ∈ s.jobs) (hid : j.id = jobId)
    (hstop : Stopped j) {t' : Task} (ht' : t' ∈ s'.tasks) (hjob : t'.jobId = jobId) :
    t'.state.queued = false ∧ (t'.state = .leased → ∃ t ∈ s.tasks, t.id = t'.id ∧
      t.jobId = jobId ∧ t.state = .leased ∧ t.leaseToken = t'.leaseToken) := by
  rcases ha.task_old ht' with ⟨t, ht, -, hmove⟩ | harr
  · have htjob : t.jobId = jobId := hmove.jobId.symm.trans hjob
    have hqueued := h.stopped j hj hid hstop t ht htjob
    have htid := hmove.id
    cases hmove with
    | keep hto =>
        have hstate : t'.state = t.state := hto.get Task.state fun _ => rfl
        have htoken : t'.leaseToken = t.leaseToken := hto.get Task.leaseToken fun _ => rfl
        rw [hstate]
        exact ⟨hqueued, fun hleased => ⟨t, ht, htid.symm, htjob, hleased, htoken.symm⟩⟩
    | lease token bytes artifacts resumed active room state hto =>
        rw [queued_of_leases state] at hqueued
        cases hqueued
    | settle σ leased ends hblocked hqueued' hto =>
        have hstate : t'.state = σ := hto.get Task.state fun _ => rfl
        rw [hstate]
        refine ⟨?_, fun hσ => absurd hσ ends.1⟩
        cases hend : σ.terminal with
        | true =>
            by_contra hne
            rw [Bool.not_eq_false] at hne
            rw [TaskState.not_terminal_of_queued hne] at hend
            cases hend
        | false =>
            -- A lease goes back to the queue only while its job has not stopped.
            rcases hqueued' hend with hactive | heq
            · rcases hstop with hflag | hended
              · rw [hactive j hj (hid.trans htjob.symm)] at hflag
                cases hflag
              · exact absurd leased (h.ended j hj hid hended t ht htjob)
            · exact absurd heq (he.2.2 t htjob)
    | drain σ queued ends hto =>
        rw [queued] at hqueued
        cases hqueued
  · cases harr with
    | seed k hk =>
        have hfresh := Table.insert?_fresh hk.jobs j hj
        have hkid : k.id = jobId := hk.seed_job.symm.trans hjob
        simp [Clashes, Keyed.clash, Keyed.key, hid, hkid] at hfresh
    | page k parent hk hrevived =>
        have hkid : k.id = jobId := hk.job.2.1.trans (hk.place.1.symm.trans hjob)
        obtain rfl := job_eq_of_id hk.job.1 hj (hkid.trans hid.symm)
        rcases hstop with hflag | hended
        · rw [hk.job.2.2] at hflag
          cases hflag
        · exact absurd (hkid ▸ hrevived hended) he.2.1
    | plant hk hpopulated => exact absurd (hjob ▸ hpopulated) he.1

theorem Quiet.preserved {jobId : Uuid} {s : Store} {e : Event} {s' : Store}
    (he : Calm jobId e) (ha : Action s e s') (h : Quiet jobId s) : Quiet jobId s' := by
  have hrow : ∀ j' ∈ s'.jobs, j'.id = jobId →
      (Stopped j' → ∀ t ∈ s'.tasks, t.jobId = jobId → t.state.queued = false) ∧
      (j'.state.terminal = true → ∀ t ∈ s'.tasks, t.jobId = jobId → t.state ≠ .leased) ∧
      (j'.cancelRequestedAt.isSome = true → j'.state.terminal = true →
        j'.state = .cancelled) := by
    intro j' hj' hid'
    rcases ha.job_old hj' with ⟨j, hj, hterms, hmove⟩ | ⟨seed, hk⟩
    · have hid : j.id = jobId := (terms_id hterms).symm.trans hid'
      cases hmove with
      | keep hstatus =>
          obtain ⟨hflag, hstate⟩ := status_eq hstatus
          unfold Stopped
          rw [hflag, hstate]
          refine ⟨fun hstop t ht hjob => (h.task he ha hj hid hstop ht hjob).1,
            fun hend t ht hjob hleased => ?_, fun hflag' hend => ?_⟩
          · obtain ⟨u, hu, -, hujob, huleased, -⟩ :=
              (h.task he ha hj hid (Or.inr hend) ht hjob).2 hleased
            exact h.ended j hj hid hend u hu hujob huleased
          · rw [status_terminal hstatus hend]
            exact h.cancelled j hj hid hflag' hend
      | flag now idle active tasks hto =>
          have hstate : j'.state.terminal = j.state.terminal :=
            hto.get (fun j => j.state.terminal) Job.core_terminal
          rw [hstate, active, tasks]
          refine ⟨fun _ t ht hjob => idle t ht (hjob.trans hid.symm), ?_, ?_⟩
          · intro hend
            cases hend
          · intro _ hend
            cases hend
      | close state verdict tasks hto =>
          obtain ⟨-, hstate⟩ := verdict.closed hto
          have hflag : j'.cancelRequestedAt = j.cancelRequestedAt :=
            hto.get Job.cancelRequestedAt fun _ => rfl
          rw [hstate, hflag, tasks]
          rcases verdict with ⟨rfl, hcancel, hidle⟩ | ⟨-, ⟨expired, rfl⟩, hend⟩
          · exact ⟨fun _ => h.stopped j hj hid (Or.inl hcancel),
              fun _ t ht hjob => hidle t ht (hjob.trans hid.symm), fun _ _ => rfl⟩
          · refine ⟨fun _ t ht hjob => ?_, fun _ t ht hjob hleased => ?_, fun hcancel _ => ?_⟩
            · have hterminal := hend t ht (hjob.trans hid.symm)
              by_contra hne
              rw [Bool.not_eq_false] at hne
              rw [TaskState.not_terminal_of_queued hne] at hterminal
              cases hterminal
            · have hterminal := hend t ht (hjob.trans hid.symm)
              rw [hleased] at hterminal
              cases hterminal
            · rw [hcancel]
              rfl
    · obtain ⟨hstate, hflag⟩ := hk.fresh
      unfold Stopped
      rw [hstate, hflag]
      simp
  exact ⟨fun j hj hid => (hrow j hj hid).1, fun j hj hid => (hrow j hj hid).2.1,
    fun j hj hid => (hrow j hj hid).2.2⟩

theorem Quiet.of_blank {jobId : Uuid} {s : Store} (h : s.blank) : Quiet jobId s := by
  have hnone : ∀ j : Job, j ∉ s.jobs := fun j hj => by
    rw [h.1] at hj
    simp at hj
  exact ⟨fun j hj => absurd hj (hnone j), fun j hj => absurd hj (hnone j),
    fun j hj => absurd hj (hnone j)⟩

/-! ## Populating a retry job -/

/-- The job row once `n` tasks are counted. -/
def recounted (n : ℤ) (j : Job) : Job := { j with discoveredCount := n, nextDiscoverySeq := n }

/-- The last transaction of `retry_failures` has a task to add to the job. -/
def Request.Plants (url : UrlIdentity) (r : Request) (s : Store) (jobId : Uuid) : Prop :=
  ∃ config rows, r.call = .populateRetries config jobId rows ∧
    ∃ original ∈ rows.tail, ∀ t ∈ s.tasks, t.jobId = jobId →
      t.urlHash ≠ url.sha256 (url.normalizeUrl original)

/-- The loop adds rows to the job, numbered on from `sequence`. -/
theorem insertRetries_ok {url : UrlIdentity} {x : Txn} {config : CrawlConfig} {jobId : Uuid}
    {rows : List String} {draw : ℕ} {sequence n : ℤ} {s s' : Store}
    (h : insertRetries url x config jobId rows draw sequence s = .ok (n, s')) :
    s'.jobs = s.jobs ∧
    ((∀ original ∈ rows, ∃ t ∈ s.tasks, t.jobId = jobId ∧
      t.urlHash = url.sha256 (url.normalizeUrl original)) → s'.tasks = s.tasks) ∧
    ∀ j : Job, j.id = jobId → Numbered s (recounted sequence j) →
      Numbered s' (recounted n j) := by
  induction rows generalizing draw sequence s with
  | nil =>
      obtain ⟨rfl, rfl⟩ := pure_ok.mp h
      exact ⟨rfl, fun _ => rfl, fun _ _ hn => hn⟩
  | cons original rows ih =>
      simp only [insertRetries, bind_ok, exec_ok] at h
      obtain ⟨_, s₁, rfl, inserted, s₂, h₂, h₃⟩ := h
      obtain ⟨O, hO⟩ := ensureOrigin_eq x.now (url.originKey (url.normalizeUrl original)) s
      rw [hO] at h₂
      rcases insertTaskOnce_ok h₂ with ⟨rfl, rfl, hdup⟩ | ⟨rfl, -, T, hT, rfl⟩
      · obtain ⟨hjobs, htasks, hnumbered⟩ := ih h₃
        refine ⟨hjobs, fun hall => htasks fun o ho => hall o (List.mem_cons_of_mem _ ho), ?_⟩
        intro j hid hn
        refine hnumbered j hid ⟨hn.same, hn.start, hn.range, hn.unique, hn.covers⟩
      · obtain ⟨hjobs, htasks, hnumbered⟩ := ih h₃
        refine ⟨hjobs, fun hall => ?_, fun j hid hn => ?_⟩
        · obtain ⟨t, ht, hjob, hhash⟩ := hall original (List.mem_cons_self ..)
          have hfresh := Table.insert?_fresh hT t ht
          simp [Clashes, Keyed.clash, Keyed.key, retrySeed, seedTask, hjob, hhash] at hfresh
        · refine hnumbered j hid ?_
          exact Numbered.inserted hn rfl rfl hT hid.symm rfl

/-- What `populate` leaves behind: the statuses are as before, a job without
new rows keeps its tasks, and a job that has only its seed is numbered. -/
theorem populateRetries_ok {url : UrlIdentity} {x : Txn} {config : CrawlConfig}
    {jobId id : Uuid} {rows : List String} {s s' : Store}
    (h : populateRetries url x config jobId rows s = .ok (id, s')) :
    ∃ n, s.jobs.Changed (fun j => j.id = jobId) (fun j j' => j' = recounted n j) s'.jobs ∧
    ((∀ original ∈ rows.tail, ∃ t ∈ s.tasks, t.jobId = jobId ∧
      t.urlHash = url.sha256 (url.normalizeUrl original)) → s'.tasks = s.tasks) ∧
    ∀ j : Job, j.id = jobId → Numbered s (recounted 1 j) → Numbered s' (recounted n j) := by
  simp only [populateRetries, bind_ok, exec_ok, pure_ok] at h
  obtain ⟨n, s₁, h₁, _, _, rfl, -, rfl⟩ := h
  obtain ⟨hjobs, htasks, hnumbered⟩ := insertRetries_ok h₁
  refine ⟨n, ?_, htasks, fun j hid hn => ?_⟩
  · rw [← hjobs]
    refine Table.Changed.of_update fun j _ _ => ?_
    rfl
  · obtain ⟨hsame, hstart, hrange, hunique, hcovers⟩ := hnumbered j hid hn
    exact ⟨hsame, hstart, hrange, hunique, hcovers⟩

/-! ## Steps that leave a stopped job alone -/

/-- The request does not put a lease of the job back into the queue once it is
cancelled, nor plant a task in it once it has stopped. -/
def Request.LeavesStopped (url : UrlIdentity) (jobId : Uuid) (r : Request) (s : Store) : Prop :=
  (Flagged s jobId → ∀ t, t.jobId = jobId →
    ¬Request.RetriesRemotely r s t ∧ ¬Request.Releases r s t) ∧
  ((∃ j ∈ s.jobs, j.id = jobId ∧ Stopped j) → ¬Request.Plants url r s jobId)

theorem Quiet.calm {url : UrlIdentity} {jobId : Uuid} {r : Request} {s : Store} {e : Event}
    (h : Quiet jobId s) (hr : Request.LeavesStopped url jobId r s)
    (hpop : ¬Request.Populates r jobId) (he : Request.emits r s e) : Calm jobId e := by
  refine ⟨?_, ?_, ?_⟩
  · rintro rfl
    exact hpop he
  · rintro rfl
    obtain ⟨f, hf, hend, hjob⟩ := he
    exact h.ended f.job hf.job_mem (hf.job_id.trans hjob) hend f.task hf.mem hjob hf.leased
  · rintro t hjob rfl
    obtain ⟨hrequeues, hflag⟩ := he
    obtain ⟨hretry, hrelease⟩ := hr.1 (hjob ▸ hflag) t hjob
    rcases hrequeues with hr | hr
    · exact hretry hr
    · exact hrelease hr

/-- Populating a job changes the status of none. -/
theorem recounted_status {jobId : Uuid} {n : ℤ} {s s' : Store}
    (h : s.jobs.Changed (fun j => j.id = jobId) (fun j j' => j' = recounted n j) s'.jobs)
    {j' : Job} (hj' : j' ∈ s'.jobs) :
    ∃ j ∈ s.jobs, j.id = j'.id ∧ j'.state = j.state ∧
      j'.cancelRequestedAt = j.cancelRequestedAt := by
  obtain ⟨j, hj, -, h'⟩ := h.mem_old hj'
  rcases h' with ⟨-, rfl⟩ | ⟨-, rfl⟩
  · exact ⟨j, hj, rfl, rfl, rfl⟩
  · exact ⟨j', hj, rfl, rfl, rfl⟩

/-- A step either commits calm actions, or recounts the job, and leaves its
tasks alone if it has stopped. -/
theorem step_quiet {url : UrlIdentity} {jobId : Uuid} {r : Request} {s : Store}
    (hr : Request.LeavesStopped url jobId r s) (h : Quiet jobId s) :
    Trace Action (Calm jobId) s (step url r s) ∨
      (∀ j' ∈ (step url r s).jobs, ∃ j ∈ s.jobs, j.id = j'.id ∧ j'.state = j.state ∧
        j'.cancelRequestedAt = j.cancelRequestedAt) ∧
      (∀ j ∈ s.jobs, ∃ j' ∈ (step url r s).jobs, j'.id = j.id ∧ j'.state = j.state ∧
        j'.cancelRequestedAt = j.cancelRequestedAt) ∧
      ((∃ j ∈ s.jobs, j.id = jobId ∧ Stopped j) → (step url r s).tasks = s.tasks) := by
  by_cases hpop : Request.Populates r jobId
  · obtain ⟨config, rows, hcall⟩ := hpop
    rcases @step_cases url r s with hsame | ⟨b, hbody⟩
    · rw [hsame]
      exact Or.inl Trace.refl
    · rw [hcall] at hbody
      obtain ⟨id, hbody, -⟩ := map_ok.mp hbody
      obtain ⟨n, hjobs, htasks, -⟩ := populateRetries_ok hbody
      refine Or.inr ⟨fun j' hj' => recounted_status hjobs hj', fun j hj => ?_, fun hstop => ?_⟩
      · obtain ⟨j', hj', -, h'⟩ := hjobs.mem_new hj
        rcases h' with ⟨-, rfl⟩ | ⟨-, rfl⟩
        · exact ⟨_, hj', rfl, rfl, rfl⟩
        · exact ⟨_, hj', rfl, rfl, rfl⟩
      · have hnone := hr.2 hstop
        refine htasks fun original horiginal => ?_
        by_contra hfresh
        refine hnone ⟨config, rows, hcall, original, horiginal, fun t ht hjob hhash => ?_⟩
        exact hfresh ⟨t, ht, hjob, hhash⟩
  · exact Or.inl ((step_trace url r s).mono fun e => h.calm hr hpop)

theorem Quiet.step {url : UrlIdentity} {jobId : Uuid} {r : Request} {s : Store}
    (hr : Request.LeavesStopped url jobId r s) (h : Quiet jobId s) :
    Quiet jobId (step url r s) := by
  rcases step_quiet hr h with htrace | ⟨hold, -, htasks⟩
  · exact htrace.preserves (fun s e s' he ha hs => hs.preserved he ha) h
  · refine ⟨fun j' hj' hid hstop => ?_, fun j' hj' hid hend => ?_, fun j' hj' hid hflag hend => ?_⟩
    · obtain ⟨j, hj, hjid, hstate, hcancel⟩ := hold j' hj'
      have hstop' : Stopped j := by
        unfold Stopped at hstop ⊢
        rwa [hstate, hcancel] at hstop
      rw [htasks ⟨j, hj, hjid.trans hid, hstop'⟩]
      exact h.stopped j hj (hjid.trans hid) hstop'
    · obtain ⟨j, hj, hjid, hstate, -⟩ := hold j' hj'
      rw [hstate] at hend
      rw [htasks ⟨j, hj, hjid.trans hid, Or.inr hend⟩]
      exact h.ended j hj (hjid.trans hid) hend
    · obtain ⟨j, hj, hjid, hstate, hcancel⟩ := hold j' hj'
      rw [hstate] at hend ⊢
      rw [hcancel] at hflag
      exact h.cancelled j hj (hjid.trans hid) hflag hend

theorem quiet_of_run {url : UrlIdentity} {jobId : Uuid} {s₀ : Store} (h₀ : s₀.blank)
    {requests : List Request}
    (hP : StepsMeet (CrawlTrove.step url) (Request.LeavesStopped url jobId) s₀ requests) :
    Quiet jobId (run url s₀ requests) :=
  runFrom_invariant (fun _ _ hr hs => hs.step hr) hP (.of_blank h₀)

end Lifecycle

end CrawlTrove
