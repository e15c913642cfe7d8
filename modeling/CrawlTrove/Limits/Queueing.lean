import CrawlTrove.Limits.Counting
import CrawlTrove.Protocol.Completion

/-!
# Work that is queued

Retries, links, parked tasks and leases that are given back queue work in the
job of the task. None of them looks at the failure limit: they leave no job
overrun as long as that job is below its limit.
-/

namespace CrawlTrove

open Relational Transaction

open Lifecycle Protocol

namespace Limits

/-- The page leads to a URL the job does not know, and the job has room for it. -/
def CoreFinds (url : UrlIdentity) (f : FencedTask) (urls : List String) (s : Store) : Prop :=
  MayDiscover f ∧ ∃ original ∈ urls, newToCore url f s original

/-- As `CoreFinds`, for the links a worker reports. -/
def WorkerFinds (f : FencedTask) (links : List WorkerApi.RemoteLink) (s : Store) : Prop :=
  f.job.discoveredCount < f.job.maxPages ∧ ∃ link ∈ links, WorkerApi.inScope f link = true ∧
    ∃ digest ∈ link.sha256, known f.task.jobId digest s = false

section Queueing

variable {url : UrlIdentity} {s s' : Store} {jobId : Uuid}

/-- A change that leaves the jobs and the tasks alone. -/
theorem queues_of_tables (hjobs : s'.jobs = s.jobs) (htasks : s'.tasks = s.tasks) :
    QueuesIn jobId s s' :=
  QueuesIn.of_tasks hjobs fun t ht hqueued => Or.inr ⟨t, htasks ▸ ht, rfl, hqueued⟩

theorem insertTask_queues {t : Task} (s s' : Store) (h : s.insertTask t = some s') :
    QueuesIn t.jobId s s' := by
  obtain ⟨-, T, hT, rfl⟩ := insertTask_eq_some.mp h
  refine QueuesIn.of_tasks rfl fun t' ht' hqueued => ?_
  rcases (Table.mem_of_insert? hT).mp ht' with hmem | rfl
  · exact Or.inr ⟨t', hmem, rfl, hqueued⟩
  · exact Or.inl rfl

theorem insertTaskOnce_queues (t : Task) : Steps (QueuesIn t.jobId) (insertTaskOnce t) := by
  unfold insertTaskOnce
  refine Steps.read_bind fun found => Steps.ite (Steps.pure _) ?_
  exact attempt_bind_steps insertTask_queues (Steps.pure _)

/-- A URL the job knows is not inserted. -/
theorem insertTaskOnce_known {t : Task} {b : Bool} (hknown : known t.jobId t.urlHash s = true)
    (h : insertTaskOnce t s = .ok (b, s')) : b = false ∧ s' = s := by
  simp only [insertTaskOnce, bind_ok, read_ok] at h
  obtain ⟨found, _, ⟨hfound, rfl⟩, h⟩ := h
  rw [← hfound, show (s.tasks.any _) = true from hknown, if_pos rfl] at h
  obtain ⟨rfl, rfl⟩ := pure_ok.mp h
  exact ⟨rfl, rfl⟩

theorem ensureOrigin_queues (now : Time) (originKey : String) (s : Store) :
    QueuesIn jobId s (s.ensureOrigin now originKey) := by
  unfold Store.ensureOrigin
  split
  · exact queues_of_tables rfl rfl
  · exact refl_of _ s

/-! ### Submissions and retries -/

theorem insertUsageRows_frame (jobId : Uuid)
    (rows : List (Provider × Meter × {limit : ℚ // 0 ≤ limit})) :
    Steps (Frame worked) (insertUsageRows jobId rows) := by
  induction rows with
  | nil => exact Steps.pure _
  | cons row rows ih =>
      refine attempt_bind_steps (fun s s' h => ?_) ih
      obtain ⟨T, -, rfl⟩ := Option.map_eq_some_iff.mp h
      rfl

theorem queues_of_worked (h : Frame worked s s') : QueuesIn jobId s s' :=
  queues_of_tables (congrArg Prod.fst h) (congrArg (fun p => p.2.1) h)

/-- A new job has failed less often than it may. -/
theorem submitJob_shrinks (x : Txn) (config : CrawlConfig) (key : Option String) :
    Steps (Shrinks Overrun) (submitJob url x config key) := by
  intro s id s' h
  simp only [submitJob, bind_ok, read_ok] at h
  obtain ⟨found, _, ⟨-, rfl⟩, h⟩ := h
  cases found with
  | some existing =>
      obtain ⟨-, rfl⟩ := pure_ok.mp h
      exact refl_of _ s
  | none =>
      simp only [bind_ok, attempt_ok, exec_ok, pure_ok] at h
      obtain ⟨_, s₁, hjob, _, s₂, husage, _, s₃, hseed, _, _, rfl, -, rfl⟩ := h
      obtain ⟨T, hT, rfl⟩ := Option.map_eq_some_iff.mp hjob
      have hfresh : ∀ j ∈ s.jobs, j.id ≠ x.uuid 0 := by
        intro j hj hid
        have hclash := Table.insert?_fresh hT j hj
        simp [Clashes, Keyed.clash, Keyed.key, submittedJob, hid] at hclash
      have hnew : QueuesIn (x.uuid 0) s { s with jobs := T } := by
        constructor
        · rintro other ⟨j, hj, hid, hlimit⟩
          rcases (Table.mem_of_insert? hT).mp hj with hmem | rfl
          · exact ⟨j, hmem, hid, hlimit⟩
          · have hpositive := config.maxFailures_ok.1
            have hnone : config.maxFailures ≤ 0 := hlimit
            omega
        · exact fun t ht hqueued => Or.inr ⟨t, ht, rfl, hqueued⟩
      have hrows : QueuesIn (x.uuid 0) _ s₂ := queues_of_worked (insertUsageRows_frame _ _ husage)
      have hinsert : QueuesIn (x.uuid 0) s₂ s₃ := insertTask_queues _ _ hseed
      have horigin : QueuesIn (x.uuid 0) s₃ (s₃.ensureOrigin x.now
        (seedTask url x.now config (x.uuid 0) (x.uuid 1)).originKey) := ensureOrigin_queues ..
      refine (trans_of _ hnew (trans_of _ hrows (trans_of _ hinsert horigin))).shrinks ?_
      rintro ⟨j, hj, hid, -⟩
      exact hfresh j hj hid

theorem insertRetries_queues (x : Txn) (config : CrawlConfig) (jobId : Uuid) (rows : List String)
    (draw : ℕ) (sequence : ℤ) :
    Steps (QueuesIn jobId) (insertRetries url x config jobId rows draw sequence) := by
  induction rows generalizing draw sequence with
  | nil => exact Steps.pure _
  | cons original rows ih =>
      unfold insertRetries
      refine exec_bind_steps (ensureOrigin_queues _ _) ?_
      exact (insertTaskOnce_queues _).bind fun _ => ih ..

theorem known_of_tasks {digest : String} (htasks : s'.tasks = s.tasks) :
    known jobId digest s' = known jobId digest s := by
  unfold known
  rw [htasks]

theorem ensureOrigin_frame (now : Time) (originKey : String) (s : Store) :
    Frame worked s (s.ensureOrigin now originKey) := by
  unfold Store.ensureOrigin
  split
  · rfl
  · rfl

theorem insertRetries_known {x : Txn} {config : CrawlConfig} {rows : List String} {draw : ℕ}
    {sequence n : ℤ}
    (hknown : ∀ original ∈ rows, known jobId (url.sha256 (url.normalizeUrl original)) s = true)
    (h : insertRetries url x config jobId rows draw sequence s = .ok (n, s')) :
    Frame worked s s' := by
  induction rows generalizing draw sequence s with
  | nil =>
      obtain ⟨-, rfl⟩ := pure_ok.mp h
      rfl
  | cons original rows ih =>
      simp only [insertRetries, bind_ok, exec_ok] at h
      obtain ⟨_, _, rfl, inserted, s₁, hinsert, h⟩ := h
      have horigin := ensureOrigin_frame x.now (url.originKey (url.normalizeUrl original)) s
      have hsame : ∀ digest, known jobId digest
          (s.ensureOrigin x.now (url.originKey (url.normalizeUrl original))) =
            known jobId digest s :=
        fun _ => known_of_tasks (congrArg (fun p => p.2.1) horigin)
      obtain ⟨-, rfl⟩ := insertTaskOnce_known
        ((hsame _).trans (hknown original List.mem_cons_self)) hinsert
      refine trans_of _ horigin (ih (fun o ho => ?_) h)
      exact (hsame _).trans (hknown o (List.mem_cons_of_mem _ ho))

/-- The second half of a retry may find its job at the limit only when it has
nothing to add. -/
theorem populateRetries_shrinks {x : Txn} {config : CrawlConfig} {rows : List String} {id : Uuid}
    (hfree : AtLimit jobId s →
      ∀ original ∈ rows.tail, known jobId (url.sha256 (url.normalizeUrl original)) s = true)
    (h : populateRetries url x config jobId rows s = .ok (id, s')) : Shrinks Overrun s s' := by
  simp only [populateRetries, bind_ok, exec_ok, pure_ok] at h
  obtain ⟨sequence, s₁, hinsert, _, _, rfl, -, rfl⟩ := h
  have hcount : WindsDown s₁ (s₁.updateJobs (fun j => j.id = jobId) fun j =>
      { j with discoveredCount := sequence, nextDiscoverySeq := sequence }) :=
    WindsBut.of_jobs rfl rfl rfl (fun _ => ⟨rfl, rfl⟩) fun _ _ _ => ⟨rfl, rfl⟩
  refine trans_of _ ?_ hcount.shrinks
  by_cases hlimit : AtLimit jobId s
  · have hframe := insertRetries_known (hfree hlimit) hinsert
    exact shrinks_of_tables (congrArg Prod.fst hframe) (congrArg (fun p => p.2.1) hframe)
  · exact (insertRetries_queues _ _ _ _ _ _ hinsert).shrinks hlimit

/-! ### Results with links -/

theorem insertLinks_queues (x : Txn) (f : FencedTask) (remaining : ℤ) (urls : List String)
    (draw : ℕ) (accepted : ℤ) :
    Steps (QueuesIn f.task.jobId) (insertLinks url x f remaining urls draw accepted) := by
  induction urls generalizing draw accepted with
  | nil => exact Steps.pure _
  | cons original urls ih =>
      unfold insertLinks
      refine Steps.ite (Steps.pure _) (Steps.ite (ih ..) ?_)
      exact (insertTaskOnce_queues _).bind fun _ => ih ..

theorem insertDiscovered_queues (x : Txn) (f : FencedTask) (urls : List String) :
    Steps (QueuesIn f.task.jobId) (insertDiscovered url x f urls) := by
  unfold insertDiscovered
  refine Steps.ite (Steps.pure _) (Steps.ite (Steps.pure _) ?_)
  refine (insertLinks_queues ..).bind fun accepted => Steps.ite ?_ (Steps.pure _)
  exact Steps.exec fun _ => QueuesIn.of_jobs rfl rfl fun _ => ⟨rfl, rfl, rfl⟩

/-- Links the job knows, or that are out of scope, change nothing. -/
theorem insertLinks_known {x : Txn} {f : FencedTask} {remaining : ℤ} {urls : List String}
    {draw : ℕ} {accepted n : ℤ} (hknown : ∀ original ∈ urls, ¬ newToCore url f s original)
    (h : insertLinks url x f remaining urls draw accepted s = .ok (n, s')) :
    n = accepted ∧ s' = s := by
  induction urls generalizing draw with
  | nil =>
      obtain ⟨rfl, rfl⟩ := pure_ok.mp h
      exact ⟨rfl, rfl⟩
  | cons original urls ih =>
      have hrest : ∀ o ∈ urls, ¬ newToCore url f s o := fun o ho =>
        hknown o (List.mem_cons_of_mem _ ho)
      unfold insertLinks at h
      split at h
      · obtain ⟨rfl, rfl⟩ := pure_ok.mp h
        exact ⟨rfl, rfl⟩
      · split at h
        · exact ih hrest h
        · rename_i hscope
          obtain ⟨inserted, s₁, hinsert, hmore⟩ := bind_ok.mp h
          have hold : known f.task.jobId (url.sha256 (url.normalizeUrl original)) s = true := by
            by_contra hnew
            refine hknown original List.mem_cons_self ⟨by simpa using hscope, ?_⟩
            exact Bool.eq_false_iff.mpr hnew
          obtain ⟨rfl, rfl⟩ := insertTaskOnce_known hold hinsert
          exact ih hrest hmore

theorem insertDiscovered_known {x : Txn} {f : FencedTask} {urls : List String} {b : PUnit}
    (hknown : ¬ CoreFinds url f urls s) (h : insertDiscovered url x f urls s = .ok (b, s')) :
    s' = s := by
  unfold insertDiscovered at h
  split at h
  · exact (pure_ok.mp h).2.symm
  · rename_i hdepth
    dsimp only at h
    split at h
    · exact (pure_ok.mp h).2.symm
    · rename_i hroom
      obtain ⟨accepted, s₁, hlinks, hcount⟩ := bind_ok.mp h
      have hnone : ∀ original ∈ urls, ¬ newToCore url f s original := fun original ho hnew =>
        hknown ⟨⟨not_lt.mp hdepth, by omega⟩, original, ho, hnew⟩
      obtain ⟨rfl, rfl⟩ := insertLinks_known hnone hlinks
      rw [if_neg (by simp)] at hcount
      exact (pure_ok.mp hcount).2.symm

/-- What the fence of the core finds. -/
theorem activeLease_cases {x : Txn} {taskId token : Uuid} {found : Option FencedTask}
    (h : activeLease x taskId token s = .ok (found, s')) :
    (found = none ∧ Shrinks Overrun s s') ∨
      ∃ f, found = some f ∧ s' = s ∧ s.fencedTask taskId token = some f ∧
        Protocol.Current x.now f := by
  rcases @activeLease_ok (fun _ => True) trivial _ _ _ _ _ _ h with
    ⟨rfl, -⟩ | ⟨f, rfl, rfl, hf, rfl, rfl⟩
  · exact Or.inl ⟨rfl, (activeLease_winds _ _ _ h).shrinks⟩
  · exact Or.inr ⟨f, rfl, rfl, hf.toFenced.fencedTask_eq, hf.uncancelled, hf.timely⟩

/-- The result fits what the lease reserved. -/
def Fits (f : FencedTask) (result : TaskResult) : Prop :=
  (reportedBytes result.metadata).1 ≤ f.task.byteBudgetReserved ∧
    result.markdown.utf8ByteSize + (reportedBytes result.metadata).2 ≤
      f.task.artifactBudgetReserved

theorem completeTask_shrinks {x : Txn} {taskId token : Uuid} {result : TaskResult} {b : Bool}
    (hfree : ∀ f, s.fencedTask taskId token = some f → Protocol.Current x.now f → Fits f result →
      (∀ r ∈ s.results, r.taskId ≠ taskId) → CoreFinds url f result.discoveredUrls s →
        ¬ AtLimit f.task.jobId s)
    (h : completeTask url x taskId token result s = .ok (b, s')) : Shrinks Overrun s s' := by
  rw [completeTask, bind_ok] at h
  obtain ⟨found, s₁, hlease, h⟩ := h
  rcases activeLease_cases hlease with ⟨rfl, hwinds⟩ | ⟨f, rfl, rfl, hfence, hcurrent⟩
  · obtain ⟨-, rfl⟩ := pure_ok.mp h
    exact hwinds
  · dsimp only at h
    split at h
    · simp only [bind_ok, exec_ok, pure_ok] at h
      obtain ⟨_, _, rfl, -, rfl⟩ := h
      exact (rejectOverBudget_winds ..).shrinks
    · rename_i hfits
      simp only [bind_ok, read_ok] at h
      obtain ⟨done, _, ⟨hdone, rfl⟩, h⟩ := h
      split at h
      · obtain ⟨-, rfl⟩ := pure_ok.mp h
        exact refl_of _ _
      · rename_i hnew
        simp only [bind_ok, attempt_ok, exec_ok, pure_ok] at h
        obtain ⟨_, s₂, hresult, _, s₃, hlinks, _, _, rfl, -, rfl⟩ := h
        obtain ⟨T, -, rfl⟩ := Option.map_eq_some_iff.mp hresult
        have hnone : ∀ r ∈ s₁.results, r.taskId ≠ taskId := by
          rw [← hdone, Bool.not_eq_true, Table.any_eq_false] at hnew
          exact fun r hr => by simpa using hnew r hr
        have hsettled : ∀ downloaded artifacts, WindsDown s₃
            (settleCompleted x f result.metadata downloaded artifacts s₃) :=
          fun downloaded artifacts => settleCompleted_winds ..
        refine trans_of _ ?_ (hsettled _ _).shrinks
        have hfirst : Shrinks Overrun s₁ { s₁ with results := T } := shrinks_of_tables rfl rfl
        refine trans_of _ hfirst ?_
        by_cases hfinds : CoreFinds url f result.discoveredUrls s₁
        · refine (insertDiscovered_queues _ _ _ hlinks).shrinks ?_
          refine hfree f hfence hcurrent ?_ hnone hfinds
          simpa [Fits, not_or, not_lt] using hfits
        · have hnothing : ¬ CoreFinds url f result.discoveredUrls { s₁ with results := T } := hfinds
          rw [insertDiscovered_known hnothing hlinks]
          exact refl_of _ _

/-! ### Tasks that go back -/

theorem requeue_shrinks {x : Txn} {f : FencedTask} (decision : FailureDecision)
    (availableAt : Time) (metadata : Metadata) (hf : f.task ∈ s.tasks)
    (hfree : ¬ AtLimit f.task.jobId s) :
    Shrinks Overrun s (requeue x f decision availableAt metadata s) := by
  have hback : QueuesIn f.task.jobId s _ :=
    requeueTask_queues hf availableAt decision.errorClass decision.errorCode
  have hrest : WindsDown _ _ := requeue_winds x f decision availableAt metadata s
  exact trans_of _ (hback.shrinks hfree) hrest.shrinks

theorem retryTask_shrinks {x : Txn} {taskId token : Uuid} {decision : FailureDecision}
    {availableAt : Time} {metadata : Metadata} {b : Bool}
    (hfree : ∀ f, s.fencedTask taskId token = some f → RequeuesReaped x f →
      ¬ AtLimit f.task.jobId s)
    (h : retryTask x taskId token decision availableAt metadata s = .ok (b, s')) :
    Shrinks Overrun s s' := by
  rw [retryTask, bind_ok] at h
  obtain ⟨found, s₁, hlease, h⟩ := h
  rcases activeLease_cases hlease with ⟨rfl, hwinds⟩ | ⟨f, rfl, rfl, hfence, hcurrent⟩
  · obtain ⟨-, rfl⟩ := pure_ok.mp h
    exact hwinds
  · dsimp only at h
    split at h
    · simp only [bind_ok, exec_ok, pure_ok] at h
      obtain ⟨_, _, rfl, -, rfl⟩ := h
      exact (failPermanently_winds ..).shrinks
    · rename_i hleft
      simp only [bind_ok, exec_ok, pure_ok] at h
      obtain ⟨_, _, rfl, -, rfl⟩ := h
      refine requeue_shrinks decision availableAt metadata
        (Fenced.of_fencedTask hfence).1.mem ?_
      exact hfree f hfence ⟨hcurrent, not_le.mp hleft⟩

theorem parkTask_shrinks {now : Time} {f : FencedTask} {code : String} (hf : f.task ∈ s.tasks)
    (hfree : ¬ AtLimit f.task.jobId s) : Shrinks Overrun s (parkTask now f code s) := by
  let s₁ := s.updateTasks (fun t => t.id = f.task.id) fun t =>
    { t.unlease with state := .waitingInput, errorCode := some code }
  have htask : QueuesIn f.task.jobId s s₁ :=
    QueuesIn.of_task rfl rfl hf (fun _ hp => of_decide_eq_true hp) fun _ => rfl
  have hjob : QueuesIn f.task.jobId s₁ (parkTask now f code s) :=
    QueuesIn.of_jobs rfl rfl fun _ => ⟨rfl, rfl, rfl⟩
  exact (trans_of _ htask hjob).shrinks hfree

/-- The core starts a session for the lease. -/
def StartsHere (s : Store) (now : Time) (f : FencedTask) (workerId : String) : Prop :=
  f.task.leaseOwner = some workerId ∧ Protocol.Current now f ∧
    ∀ l ∈ s.sessions, l.taskId ≠ f.task.id

theorem insertSession_shrinks {l : LiveSession} (h : s.insertSession l = some s') :
    Frame worked s { s' with sessions := s.sessions } ∧ ∀ k ∈ s.sessions, k.taskId ≠ l.taskId := by
  obtain ⟨T, hT, rfl⟩ := Option.map_eq_some_iff.mp h
  refine ⟨rfl, fun k hk htask => ?_⟩
  have hfresh := Table.insert?_fresh hT k hk
  simp [Clashes, Keyed.clash, Keyed.key, htask] at hfresh

/-- A lease that is parked under a new session. -/
theorem startSession_shrinks {now : Time} {f : FencedTask} {code : String} {l : LiveSession}
    {s₁ : Store} (hf : f.task ∈ s.tasks) (hinsert : s.insertSession l = some s₁)
    (hfree : (∀ k ∈ s.sessions, k.taskId ≠ l.taskId) → ¬ AtLimit f.task.jobId s) :
    Shrinks Overrun s (parkTask now f code s₁) := by
  have hfresh := (insertSession_shrinks hinsert).2
  obtain ⟨T, -, rfl⟩ := Option.map_eq_some_iff.mp hinsert
  have hfirst : Shrinks Overrun s { s with sessions := T } := shrinks_of_tables rfl rfl
  have hpark : ¬ AtLimit f.task.jobId { s with sessions := T } := hfree hfresh
  exact trans_of _ hfirst (parkTask_shrinks hf hpark)

theorem waitForInputLocal_shrinks {x : Txn} {taskId token : Uuid} {backend workerId : String}
    {ttlSeconds : ℤ} {session : LiveSession}
    (hfree : validTtl ttlSeconds = true → validBackend backend = true → workerId ≠ "" →
      ∀ f, s.fencedTask taskId token = some f → StartsHere s x.now f workerId →
        ¬ AtLimit f.task.jobId s)
    (h : waitForInputLocal x taskId token backend workerId ttlSeconds s = .ok (session, s')) :
    Shrinks Overrun s s' := by
  unfold waitForInputLocal at h
  split at h
  · exact (raise_ok.mp h).elim
  · rename_i hvalid
    simp only [Bool.or_eq_true, Bool.not_eq_true', decide_eq_true_eq, not_or,
      Bool.not_eq_false] at hvalid
    obtain ⟨⟨httl, hbackend⟩, hworker⟩ := hvalid
    simp only [bind_ok, read_ok] at h
    obtain ⟨found, _, ⟨hfound, rfl⟩, h⟩ := h
    cases found with
    | none => exact (raise_ok.mp h).elim
    | some f =>
        obtain ⟨hf, hid, -⟩ := Fenced.of_fencedTask hfound
        dsimp only at h
        split at h
        · exact (raise_ok.mp h).elim
        · rename_i hchecks
          simp only [not_or, not_not, not_le, Bool.not_eq_true, Option.isSome_eq_false_iff,
            Option.isNone_iff_eq_none] at hchecks
          obtain ⟨howner, hcancel, htime⟩ := hchecks
          simp only [bind_ok, attempt_ok, exec_ok, pure_ok] at h
          obtain ⟨_, s₁, hinsert, _, _, rfl, -, rfl⟩ := h
          refine startSession_shrinks hf.mem hinsert fun hnever => ?_
          refine hfree httl hbackend hworker f hfound ⟨howner, ⟨hcancel, htime⟩, ?_⟩
          rw [hid]
          exact hnever

/-! ### Sessions that are closed -/

theorem setSession_shrinks (id : Uuid) (state : SessionState) (s : Store) :
    Shrinks Overrun s (setSession id state s) :=
  shrinks_of_tables rfl rfl

/-- The session is live, and its end counts the task it belongs to. -/
def EndsTask (s : Store) (l : LiveSession) (owner : Option String) (task : Task) : Prop :=
  l ∈ s.sessions ∧ l.state.live = true ∧ task ∈ s.tasks ∧ task.id = l.taskId ∧
    (task.state = .waitingInput ∨ (task.state = .leased ∧ task.leaseOwner = owner))

theorem closeSession_shrinks {x : Txn} {id : Uuid} {reason : CloseReason}
    {workerId : Option String} {b : Bool}
    (hwork : reason.expires = true → ∀ l task, l.id = id → EndsTask s l workerId task →
      ¬ LeavesWork task s)
    (h : closeSession x id reason workerId s = .ok (b, s')) : Shrinks Overrun s s' := by
  unfold closeSession at h
  split at h
  · exact (raise_ok.mp h).elim
  simp only [bind_ok, read_ok] at h
  obtain ⟨found, _, ⟨hfound, rfl⟩, h⟩ := h
  cases found with
  | none =>
      obtain ⟨-, rfl⟩ := pure_ok.mp h
      exact refl_of _ s
  | some session =>
      obtain ⟨hsession, hp⟩ := Table.find?_eq_some hfound
      simp only [Bool.and_eq_true, decide_eq_true_eq] at hp
      simp only [bind_ok, read_ok] at h
      obtain ⟨found, _, ⟨htask, rfl⟩, h⟩ := h
      cases found with
      | none =>
          simp only [bind_ok, exec_ok, pure_ok] at h
          obtain ⟨_, _, rfl, -, rfl⟩ := h
          exact setSession_shrinks id _ s
      | some task =>
          obtain ⟨hmem, htid⟩ := Store.task?_eq_some.mp htask
          simp only at h
          split at h
          · simp only [bind_ok, exec_ok, pure_ok] at h
            obtain ⟨_, _, rfl, -, rfl⟩ := h
            exact setSession_shrinks id _ s
          · simp only [bind_ok, exec_ok, pure_ok] at h
            obtain ⟨_, _, rfl, _, _, rfl, -, rfl⟩ := h
            refine trans_of _ (closeTask_shrinks x.now reason _ fun hexpired hends => ?_)
              (setSession_shrinks id _ _)
            refine hwork hexpired session task hp.1 ⟨hsession, hp.2, hmem, htid, ?_⟩
            simpa [CloseReason.cancels_of_expires hexpired] using hends

/-! ### The worker protocol -/

/-- The active worker of this role, or, where it may, the draining one. -/
def workerOf (role : String) (allowDraining : Bool) (s : Store) : Option Worker :=
  s.workers.find? fun w => w.dbRole = role && w.protocolVersion = 1 &&
    (w.state = .active || (allowDraining && w.state = .draining))

theorem identity_found {role : String} {draining : Bool} {w : Worker}
    (h : WorkerApi.identity role draining s = .ok (w, s')) :
    workerOf role draining s = some w ∧ s' = s := by
  simp only [WorkerApi.identity, bind_ok, read_ok] at h
  obtain ⟨found, _, ⟨hfound, rfl⟩, h⟩ := h
  cases found with
  | none => exact (raise_ok.mp h).elim
  | some worker =>
      obtain ⟨rfl, rfl⟩ := pure_ok.mp h
      exact ⟨hfound, rfl⟩

/-- The task the worker of this role holds under the token. -/
def heldBy (role : String) (draining : Bool) (taskId token : Uuid) (s : Store) : Option Task :=
  (workerOf role draining s).bind fun worker => WorkerApi.ownedTask worker taskId token s

theorem fail_shrinks {x : Txn} {role : String} {taskId token : Uuid}
    {errorClass errorCode : String} {metadata : Metadata} {b : Bool}
    (hwork : (metadata.downloadedBytes.sql? 0).isSome = true →
      ∀ task ∈ heldBy role false taskId token s, ¬ LeavesWork task s)
    (h : WorkerApi.fail x role taskId token errorClass errorCode metadata s = .ok (b, s')) :
    Shrinks Overrun s s' := by
  rw [WorkerApi.fail, bind_ok] at h
  obtain ⟨worker, s₀, hworker, h⟩ := h
  obtain ⟨hrole, rfl⟩ := identity_found hworker
  simp only [bind_ok, read_ok] at h
  obtain ⟨found, _, ⟨hfound, rfl⟩, h⟩ := h
  cases found with
  | none =>
      obtain ⟨-, rfl⟩ := pure_ok.mp h
      exact refl_of _ _
  | some task =>
      simp only [bind_ok, exec_ok, pure_ok] at h
      obtain ⟨reported, _, hcast, _, _, rfl, -, rfl⟩ := h
      obtain ⟨rfl, hreported⟩ := castInt_ok hcast
      refine failRows_shrinks _ _ _ _ (hwork (by rw [hreported]; rfl) task ?_)
      exact Option.bind_eq_some_iff.mpr ⟨worker, hrole, hfound⟩

/-- A worker puts the row of its task back. -/
theorem settleRow_queues {task : Task} {set : Task → Task}
    {hset : ∀ t, Keyed.key (set t) = Keyed.key t} (hmem : task ∈ s.tasks) :
    QueuesIn task.jobId s (WorkerApi.settleRow task.id set hset s) := by
  refine QueuesIn.of_task rfl rfl hmem (fun _ hp => of_decide_eq_true hp) fun t => ?_
  have hkey : ((set t.unlease).id, (set t.unlease).jobId, (set t.unlease).urlHash) =
      (t.id, t.jobId, t.urlHash) := hset t.unlease
  simp only [Prod.mk.injEq] at hkey
  exact hkey.2.1

theorem retry_shrinks {x : Txn} {role : String} {taskId token : Uuid}
    {errorClass errorCode : String} {availableAt : Time} {metadata : Metadata} {b : Bool}
    (hwork : (metadata.downloadedBytes.sql? 0).isSome = true →
      ∀ task ∈ heldBy role false taskId token s,
        if task.maxAttempts ≤ task.attemptCount then ¬ LeavesWork task s
        else ¬ AtLimit task.jobId s)
    (h : WorkerApi.retry x role taskId token errorClass errorCode availableAt metadata s =
      .ok (b, s')) : Shrinks Overrun s s' := by
  rw [WorkerApi.retry, bind_ok] at h
  obtain ⟨worker, s₀, hworker, h⟩ := h
  obtain ⟨hrole, rfl⟩ := identity_found hworker
  simp only [bind_ok, read_ok] at h
  obtain ⟨found, _, ⟨hfound, rfl⟩, h⟩ := h
  cases found with
  | none =>
      obtain ⟨-, rfl⟩ := pure_ok.mp h
      exact refl_of _ _
  | some task =>
      simp only [bind_ok] at h
      obtain ⟨reported, s₁, hcast, h⟩ := h
      obtain ⟨rfl, hreported⟩ := castInt_ok hcast
      have htask := hwork (by rw [hreported]; rfl) task
        (Option.bind_eq_some_iff.mpr ⟨worker, hrole, hfound⟩)
      split at h
      · rename_i hlast
        rw [if_pos hlast] at htask
        simp only [bind_ok, exec_ok, pure_ok] at h
        obtain ⟨_, _, rfl, -, rfl⟩ := h
        exact failRows_shrinks _ _ _ _ htask
      · rename_i hleft
        rw [if_neg hleft] at htask
        simp only [bind_ok, exec_ok, pure_ok] at h
        obtain ⟨_, _, rfl, -, rfl⟩ := h
        obtain ⟨set, hset, -, hrest⟩ := requeueRows_winds x task token errorClass errorCode
          availableAt (WorkerApi.usedBytes task reported) s₁
        exact trans_of _ ((settleRow_queues (ownedTask_ok hfound).1.mem).shrinks htask) hrest.shrinks

theorem release_shrinks {x : Txn} {role : String} {taskId token : Uuid} {b : Bool}
    (hfree : ∀ task ∈ heldBy role true taskId token s, ¬ AtLimit task.jobId s)
    (h : WorkerApi.release x role taskId token s = .ok (b, s')) : Shrinks Overrun s s' := by
  rw [WorkerApi.release, bind_ok] at h
  obtain ⟨worker, s₀, hworker, h⟩ := h
  obtain ⟨hrole, rfl⟩ := identity_found hworker
  simp only [bind_ok, read_ok] at h
  obtain ⟨found, _, ⟨hfound, rfl⟩, h⟩ := h
  cases found with
  | none =>
      obtain ⟨-, rfl⟩ := pure_ok.mp h
      exact refl_of _ _
  | some task =>
      simp only [bind_ok, exec_ok, pure_ok] at h
      obtain ⟨_, _, rfl, -, rfl⟩ := h
      obtain ⟨set, hset, -, hrest⟩ := releaseRows_winds x task token s₀
      have htask := hfree task (Option.bind_eq_some_iff.mpr ⟨worker, hrole, hfound⟩)
      exact trans_of _ ((settleRow_queues (ownedTask_ok hfound).1.mem).shrinks htask) hrest.shrinks

/-- The result a worker reports is taken. -/
def TakesReport (s : Store) (worker : Worker) (f : FencedTask) (artifact : WorkerApi.ArtifactRef)
    (report : WorkerApi.Report) : Prop :=
  (∃ size ∈ artifact.size.sql? (-1), ∃ cast ∈ report.downloadedBytes.sql? 0,
    WorkerApi.acceptsReport worker f.task artifact size (max 0 cast) = true) ∧
    artifact.sha256.isSome = true ∧ ∀ r ∈ s.results, r.taskId ≠ f.task.id

theorem remote_insertLinks_queues (x : Txn) (f : FencedTask) (links : List WorkerApi.RemoteLink)
    (draw : ℕ) : Steps (QueuesIn f.task.jobId) (WorkerApi.insertLinks x f links draw) := by
  induction links generalizing draw with
  | nil => exact Steps.pure _
  | cons link links ih =>
      unfold WorkerApi.insertLinks
      refine Steps.read_bind fun found => ?_
      cases found with
      | none => exact Steps.pure _
      | some job =>
          refine Steps.ite ?_ (ih ..)
          split
          · refine (insertTaskOnce_queues _).bind fun inserted => ?_
            refine Steps.ite (exec_bind_steps (fun _ => ?_) (ih ..)) (ih ..)
            exact QueuesIn.of_jobs rfl rfl fun _ => ⟨rfl, rfl, rfl⟩
          · exact Steps.raise _

/-- Links the job knows, or has no room for, change nothing. -/
theorem remote_insertLinks_known {x : Txn} {f : FencedTask} {links : List WorkerApi.RemoteLink}
    {draw : ℕ} {b : PUnit}
    (hknown : ∀ j, s.job? f.task.jobId = some j → j.discoveredCount < j.maxPages →
      ∀ link ∈ links, WorkerApi.inScope f link = true → ∀ digest ∈ link.sha256,
        known f.task.jobId digest s = true)
    (h : WorkerApi.insertLinks x f links draw s = .ok (b, s')) : s' = s := by
  induction links generalizing draw with
  | nil => exact (pure_ok.mp h).2.symm
  | cons link links ih =>
      have hrest : ∀ {b}, WorkerApi.insertLinks x f links (draw + 1) s = .ok (b, s') → s' = s :=
        fun hmore => ih (fun j hj hroom l hl =>
          hknown j hj hroom l (List.mem_cons_of_mem _ hl)) hmore
      simp only [WorkerApi.insertLinks, bind_ok, read_ok] at h
      obtain ⟨found, _, ⟨hfound, rfl⟩, h⟩ := h
      cases found with
      | none => exact (pure_ok.mp h).2.symm
      | some job =>
          dsimp only at h
          split at h
          · rename_i htaken
            simp only [Bool.and_eq_true, decide_eq_true_eq] at htaken
            cases hurl : link.url with
            | none =>
                rw [hurl] at h
                exact (raise_ok.mp h).elim
            | some reported =>
                cases hdigest : link.sha256 with
                | none =>
                    rw [hurl, hdigest] at h
                    exact (raise_ok.mp h).elim
                | some digest =>
                    rw [hurl, hdigest] at h
                    dsimp only at h
                    obtain ⟨inserted, s₁, hinsert, hmore⟩ := bind_ok.mp h
                    have hold := hknown job hfound htaken.2 link List.mem_cons_self htaken.1 digest
                      hdigest
                    obtain ⟨rfl, rfl⟩ := insertTaskOnce_known hold hinsert
                    simp only [Bool.false_eq_true, if_false] at hmore
                    exact hrest hmore
          · exact hrest h

/-- The rows an accepted report settles keep what the job knows and its room
for links. -/
theorem completeRows_known {x : Txn} {f : FencedTask} {used size : ℤ} {digest : String} :
    known jobId digest (WorkerApi.completeRows x f used size s) = known jobId digest s := by
  unfold known Table.any
  show (s.tasks.rows.map _).any _ = _
  rw [List.any_map]
  refine congrArg (s.tasks.rows.any ·) (funext fun t => ?_)
  rw [Function.comp_apply]
  split
  · rfl
  · rfl

/-- They count no failure. -/
theorem completeRows_limit {x : Txn} {f : FencedTask} {used size : ℤ}
    (h : AtLimit jobId (WorkerApi.completeRows x f used size s)) : AtLimit jobId s := by
  rw [← spent_zero] at h ⊢
  rw [← add_zero (0 : ℤ)]
  refine Spent.of_jobs rfl (fun _ => ?_) (fun _ _ _ => ?_) (le_refl 0) h
  · exact ⟨rfl, rfl⟩
  · exact (add_zero _).symm.le

theorem completeRows_room {x : Txn} {f : FencedTask} {used size : ℤ} {j : Job} (hf : Fenced s f)
    (hj : (WorkerApi.completeRows x f used size s).job? f.task.jobId = some j) :
    j.discoveredCount = f.job.discoveredCount ∧ j.maxPages = f.job.maxPages := by
  obtain ⟨hmem, hid⟩ := Store.job?_eq_some.mp hj
  obtain ⟨k, hk, hrow⟩ := List.mem_map.mp hmem
  by_cases hp : decide (k.id = f.task.jobId) = true
  · rw [if_pos hp] at hrow
    have hsame : k = f.job := hf.job_unique k hk (of_decide_eq_true hp)
    rw [← hrow, ← hsame]
    exact ⟨rfl, rfl⟩
  · rw [if_neg hp] at hrow
    exact absurd (decide_eq_true (hrow ▸ hid)) hp

/-- The lease the worker of this role holds in a job that goes on. -/
def activeFor (x : Txn) (role : String) (taskId token : Uuid) (s : Store) (worker : Worker)
    (f : FencedTask) : Prop :=
  workerOf role false s = some worker ∧
    WorkerApi.activeTask x.now worker taskId token s = some f

theorem complete_shrinks {x : Txn} {role : String} {taskId token : Uuid}
    {artifact : WorkerApi.ArtifactRef} {report : WorkerApi.Report} {b : Bool}
    (hfree : ∀ worker f, activeFor x role taskId token s worker f →
      TakesReport s worker f artifact report → WorkerFinds f report.discoveredUrls s →
        ¬ AtLimit f.task.jobId s)
    (h : WorkerApi.complete x role taskId token artifact report s = .ok (b, s')) :
    Shrinks Overrun s s' := by
  rw [WorkerApi.complete, bind_ok] at h
  obtain ⟨worker, s₀, hworker, h⟩ := h
  obtain ⟨hrole, rfl⟩ := identity_found hworker
  simp only [bind_ok, read_ok] at h
  obtain ⟨found, _, ⟨hfound, rfl⟩, h⟩ := h
  cases found with
  | none =>
      obtain ⟨-, rfl⟩ := pure_ok.mp h
      exact refl_of _ _
  | some f =>
      obtain ⟨hf, hid, -⟩ := activeTask_ok hfound
      simp only [bind_ok] at h
      obtain ⟨size, s₁, hsize, cast, s₂, hcast, h⟩ := h
      obtain ⟨rfl, hsizes⟩ := castInt_ok hsize
      obtain ⟨rfl, hcasts⟩ := castInt_ok hcast
      split at h
      · obtain ⟨-, rfl⟩ := pure_ok.mp h
        exact refl_of _ _
      · rename_i haccepts
        split at h
        · exact (raise_ok.mp h).elim
        · rename_i hdigest
          simp only [bind_ok, read_ok] at h
          obtain ⟨done, _, ⟨hdone, rfl⟩, h⟩ := h
          split at h
          · obtain ⟨-, rfl⟩ := pure_ok.mp h
            exact refl_of _ _
          · rename_i hnew
            simp only [bind_ok, attempt_ok, exec_ok, pure_ok] at h
            obtain ⟨_, s₃, hresult, _, _, rfl, _, s₄, hlinks, -, rfl⟩ := h
            obtain ⟨T, -, rfl⟩ := Option.map_eq_some_iff.mp hresult
            have hnone : ∀ r ∈ s₂.results, r.taskId ≠ f.task.id := by
              rw [← hdone, Bool.not_eq_true, Table.any_eq_false] at hnew
              rw [hid]
              exact fun r hr => by simpa using hnew r hr
            have hfirst : Shrinks Overrun s₂ { s₂ with results := T } := shrinks_of_tables rfl rfl
            have hrows : WindsDown { s₂ with results := T } _ :=
              completeRows_winds x f (max 0 cast) size { s₂ with results := T }
            refine trans_of _ hfirst (trans_of _ hrows.shrinks ?_)
            by_cases hfinds : WorkerFinds f report.discoveredUrls s₂
            · have htaken : TakesReport s₂ worker f artifact report := by
                refine ⟨⟨size, hsizes, cast, hcasts, by simpa using haccepts⟩, ?_, hnone⟩
                simpa [Option.isSome_iff_ne_none] using hdigest
              have hbelow := hfree worker f ⟨hrole, hfound⟩ htaken hfinds
              refine (remote_insertLinks_queues _ _ _ _ hlinks).shrinks fun hlimit => ?_
              have hbefore : AtLimit f.task.jobId { s₂ with results := T } :=
                completeRows_limit hlimit
              exact hbelow hbefore
            · rw [remote_insertLinks_known (fun j hj hroom link hlink hscope digest hd => ?_) hlinks]
              · exact refl_of _ _
              · rw [completeRows_known]
                by_contra hunknown
                have hfenced : Fenced { s₂ with results := T } f :=
                  ⟨⟨hf.mem, hf.leased, hf.token⟩, hf.job_mem, hf.job_id⟩
                obtain ⟨hcount, hpages⟩ := completeRows_room hfenced hj
                rw [hcount, hpages] at hroom
                exact hfinds ⟨hroom, link, hlink, hscope, digest, hd,
                  Bool.eq_false_iff.mpr hunknown⟩

theorem startLiveSession_shrinks {x : Txn} {role : String} {taskId token : Uuid}
    {backend workerId : String} {ttlSeconds : Option ℤ} {code : String}
    {session : Option LiveSession}
    (hfree : validBackend backend = true → ttlSeconds.all validTtl = true →
      ∀ worker f, activeFor x role taskId token s worker f → workerId = worker.id →
        (∀ l ∈ s.sessions, l.taskId ≠ taskId) → ¬ AtLimit f.task.jobId s)
    (h : WorkerApi.startLiveSession x role taskId token backend workerId ttlSeconds code s =
      .ok (session, s')) : Shrinks Overrun s s' := by
  rw [WorkerApi.startLiveSession, bind_ok] at h
  obtain ⟨worker, s₀, hworker, h⟩ := h
  obtain ⟨hrole, rfl⟩ := identity_found hworker
  split at h
  · exact (raise_ok.mp h).elim
  · rename_i hvalid
    simp only [Bool.or_eq_true, Bool.not_eq_true', decide_eq_true_eq, not_or, not_not,
      Bool.not_eq_false] at hvalid
    obtain ⟨⟨howner, hbackend⟩, httl⟩ := hvalid
    simp only [bind_ok, read_ok] at h
    obtain ⟨found, _, ⟨hfound, rfl⟩, h⟩ := h
    cases found with
    | none =>
        obtain ⟨-, rfl⟩ := pure_ok.mp h
        exact refl_of _ _
    | some f =>
        obtain ⟨hf, hid, -⟩ := activeTask_ok hfound
        dsimp only at h
        split at h
        · obtain ⟨-, rfl⟩ := pure_ok.mp h
          exact refl_of _ _
        · simp only [bind_ok, attempt_ok, exec_ok, pure_ok] at h
          obtain ⟨_, s₁, hinsert, _, _, rfl, -, rfl⟩ := h
          refine startSession_shrinks hf.mem hinsert fun hnever => ?_
          exact hfree hbackend httl worker f ⟨hrole, hfound⟩ howner hnever

theorem waitForInput_shrinks {x : Txn} {role : String} {taskId token : Uuid} {code : String}
    {b : Bool}
    (hfree : ∀ worker f, activeFor x role taskId token s worker f →
      (∀ l ∈ s.sessions, l.taskId ≠ taskId) → ¬ AtLimit f.task.jobId s)
    (h : WorkerApi.waitForInput x role taskId token code s = .ok (b, s')) :
    Shrinks Overrun s s' := by
  simp only [WorkerApi.waitForInput, bind_ok, pure_ok] at h
  obtain ⟨worker, s₁, hworker, started, s₂, hstart, -, rfl⟩ := h
  obtain ⟨hrole, rfl⟩ := identity_found hworker
  refine startLiveSession_shrinks (fun _ _ worker f hactive _ => ?_) hstart
  exact hfree worker f hactive

theorem closeLiveSession_shrinks {x : Txn} {role : String} {id : Uuid} {reason : CloseReason}
    {b : Bool}
    (hwork : reason.expires = true → ∀ worker, workerOf role true s = some worker →
      ∀ l task, l.id = id → l.workerId = some worker.id → EndsTask s l (some worker.id) task →
        ¬ LeavesWork task s)
    (h : WorkerApi.closeLiveSession x role id reason s = .ok (b, s')) : Shrinks Overrun s s' := by
  rw [WorkerApi.closeLiveSession, bind_ok] at h
  obtain ⟨worker, s₀, hworker, h⟩ := h
  obtain ⟨hrole, rfl⟩ := identity_found hworker
  split at h
  · exact (raise_ok.mp h).elim
  simp only [bind_ok, read_ok] at h
  obtain ⟨found, _, ⟨hfound, rfl⟩, h⟩ := h
  cases found with
  | none =>
      obtain ⟨-, rfl⟩ := pure_ok.mp h
      exact refl_of _ _
  | some session =>
      obtain ⟨hsession, hp⟩ := Table.find?_eq_some hfound
      simp only [Bool.and_eq_true, decide_eq_true_eq] at hp
      simp only [bind_ok, read_ok] at h
      obtain ⟨found, _, ⟨htask, rfl⟩, h⟩ := h
      cases found with
      | none =>
          simp only [bind_ok, exec_ok, pure_ok] at h
          obtain ⟨_, _, rfl, -, rfl⟩ := h
          exact setSession_shrinks id _ _
      | some task =>
          obtain ⟨hmem, htid⟩ := Store.task?_eq_some.mp htask
          simp only at h
          split at h
          · simp only [bind_ok, exec_ok, pure_ok] at h
            obtain ⟨_, _, rfl, -, rfl⟩ := h
            exact setSession_shrinks id _ _
          · simp only [bind_ok, exec_ok, pure_ok, remote_closeTask_eq] at h
            obtain ⟨_, _, rfl, _, _, rfl, -, rfl⟩ := h
            refine trans_of _ (closeTask_shrinks x.now reason _ fun hexpired hends => ?_)
              (setSession_shrinks id _ _)
            refine hwork hexpired worker hrole session task hp.1.1 hp.1.2
              ⟨hsession, hp.2, hmem, htid, ?_⟩
            simpa using hends

theorem requestCancel_shrinks (x : Txn) (jobId : Uuid) :
    Steps (Shrinks Overrun) (requestCancel x jobId) := by
  unfold requestCancel
  refine Steps.read_bind fun found => ?_
  cases found with
  | none => exact Steps.pure _
  | some job =>
      refine Steps.ite (Steps.pure _) (Steps.read_bind fun cancelled => ?_)
      have hqueue : ∀ s, WindsDown s (cancelQueued x.now jobId s) := cancelQueued_winds _ _
      have hjob : ∀ s, WindsDown s (cancelJob x.now jobId cancelled.length s) :=
        cancelJob_winds _ _ _
      refine exec_bind_steps (fun s => (hqueue s).shrinks) ?_
      refine exec_bind_steps (fun s => shrinks_of_tables rfl rfl) ?_
      refine exec_bind_steps (fun s => (hjob s).shrinks) ?_
      refine Steps.bind ((reconcileAbandoned_frame x none).mono fun s s' hsame => ?_) fun _ =>
        Steps.pure _
      exact shrinks_of_tables (congrArg Prod.fst hsame) (congrArg (fun p => p.2.1) hsame)

end Queueing

end Limits

end CrawlTrove
