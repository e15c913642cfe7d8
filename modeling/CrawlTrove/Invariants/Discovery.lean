import CrawlTrove.Invariants.Frontier

/-!
# What a completion adds to the frontier

Both implementations walk the reported links in order. A link that is left
without a row is a duplicate, off-origin, too deep or unusable, or the job was
full when its turn came (`completeTask_links`, `complete_links`). With the
shape of the frontier along runs this gives `frontier_exact`.
-/

namespace CrawlTrove

open Relational Transaction

namespace Lifecycle

/-! ## Reported links -/

/-- A link as one of the two completions reports it. -/
inductive Link
  | found (original : String)
  | remote (link : WorkerApi.RemoteLink)

variable (url : UrlIdentity)

/-- The identity the link would have in the frontier. -/
def Link.hash : Link → Option String
  | .found original => some (url.sha256 (url.normalizeUrl original))
  | .remote link => link.sha256

def Link.originKey : Link → Option String
  | .found original => some (url.originKey (url.normalizeUrl original))
  | .remote link => link.originKey

/-- The link has an identity at all. -/
def Link.usable : Link → Bool
  | .found original => url.normalizeUrl original ≠ ""
  | .remote link => link.sha256.any WorkerApi.lowerHexDigest

/-- The task, the token and the links of a call that completes a task. -/
def completion : Call → Option (Uuid × Uuid × List Link)
  | .completeTask taskId token result =>
      some (taskId, token, result.discoveredUrls.map .found)
  | .remote _ (.complete taskId token _ report) =>
      some (taskId, token, report.discoveredUrls.map .remote)
  | _ => none

/-- The job has a task under this identity. -/
def OnFrontier (s : Store) (jobId : Uuid) (hash : Option String) : Prop :=
  ∃ t ∈ s.tasks, t.jobId = jobId ∧ hash = some t.urlHash

/-- The job has as many tasks as it may have. -/
def Full (s : Store) (jobId : Uuid) : Prop :=
  ∃ j ∈ s.jobs, j.id = jobId ∧ j.maxPages ≤ j.discoveredCount

/-- Why a link of the page `f` may be left out of the frontier of `s`: its
identity is taken, it is off-origin, too deep or unusable, or the job is full. -/
def Excused (f : FencedTask) (s : Store) (link : Link) : Prop :=
  OnFrontier s f.task.jobId (link.hash url) ∨
    link.originKey url ≠ some f.task.originKey ∨
    f.job.config.maxDepth < f.task.depth + 1 ∨
    link.usable url = false ∨ Full s f.task.jobId

variable {url}

theorem OnFrontier.mono {s s' : Store} {jobId : Uuid} {hash : Option String}
    (hs : ∀ t ∈ s.tasks, ∃ t' ∈ s'.tasks, t'.jobId = t.jobId ∧ t'.urlHash = t.urlHash)
    (h : OnFrontier s jobId hash) : OnFrontier s' jobId hash := by
  obtain ⟨t, ht, hjob, hhash⟩ := h
  obtain ⟨t', ht', hjob', hhash'⟩ := hs t ht
  exact ⟨t', ht', hjob'.trans hjob, by rw [hhash', hhash]⟩

/-! ## The core -/

/-- After `insertTaskOnce` the row or its duplicate is there. -/
theorem insertTaskOnce_frontier {t : Task} {s s' : Store} {b : Bool}
    (h : insertTaskOnce t s = .ok (b, s')) :
    OnFrontier s' t.jobId (some t.urlHash) ∧ (∀ u ∈ s.tasks, u ∈ s'.tasks) ∧
      s'.jobs = s.jobs := by
  rcases insertTaskOnce_ok h with ⟨-, rfl, u, hu, hjob, hhash⟩ | ⟨-, -, T, hT, rfl⟩
  · exact ⟨⟨u, hu, hjob, by rw [hhash]⟩, fun _ hu => hu, rfl⟩
  · have hmem (u : Task) : u ∈ T ↔ u ∈ s.tasks ∨ u = t := Table.mem_of_insert? hT
    exact ⟨⟨t, (hmem t).mpr (Or.inr rfl), rfl, rfl⟩, fun u hu => (hmem u).mpr (Or.inl hu), rfl⟩

/-- The loop keeps what is there and either reaches a link or fills the job. -/
theorem insertLinks_frontier {x : Txn} {f : FencedTask} {remaining : ℤ} {urls : List String}
    {draw : ℕ} {k n : ℤ} {s s' : Store}
    (h : insertLinks url x f remaining urls draw k s = .ok (n, s')) :
    (∀ t ∈ s.tasks, t ∈ s'.tasks) ∧ s'.jobs = s.jobs ∧ k ≤ n ∧
      ∀ original ∈ urls, OnFrontier s' f.task.jobId ((Link.found original).hash url) ∨
        inScope url f original = false ∨ remaining ≤ n := by
  induction urls generalizing draw k s with
  | nil =>
      obtain ⟨rfl, rfl⟩ := pure_ok.mp h
      exact ⟨fun _ ht => ht, rfl, le_refl _, by simp⟩
  | cons original urls ih =>
      unfold insertLinks at h
      split at h
      · rename_i hfull
        obtain ⟨rfl, rfl⟩ := pure_ok.mp h
        exact ⟨fun _ ht => ht, rfl, le_refl _, fun _ _ => Or.inr (Or.inr hfull)⟩
      · split at h
        · rename_i hscope
          obtain ⟨htasks, hjobs, hle, hlinks⟩ := ih h
          refine ⟨htasks, hjobs, hle, fun link hlink => ?_⟩
          rcases List.mem_cons.mp hlink with rfl | hlink
          · exact Or.inr (Or.inl (by simpa using hscope))
          · exact hlinks link hlink
        · simp only [bind_ok] at h
          obtain ⟨inserted, s₁, h₁, h₂⟩ := h
          obtain ⟨hfound, htasks₁, hjobs₁⟩ := insertTaskOnce_frontier h₁
          obtain ⟨htasks, hjobs, hle, hlinks⟩ := ih h₂
          refine ⟨fun t ht => htasks t (htasks₁ t ht), hjobs.trans hjobs₁, ?_,
            fun link hlink => ?_⟩
          · cases inserted with
            | true => rw [if_pos rfl] at hle; omega
            | false => exact hle
          · rcases List.mem_cons.mp hlink with rfl | hlink
            · exact Or.inl (hfound.mono fun t ht => ⟨t, htasks t ht, rfl, rfl⟩)
            · exact hlinks link hlink

theorem inScope_excused {f : FencedTask} {s : Store} {original : String}
    (h : inScope url f original = false) : Excused url f s (.found original) := by
  simp only [inScope, Bool.and_eq_false_iff, decide_eq_false_iff_not, not_not] at h
  rcases h with hempty | horigin
  · exact Or.inr (Or.inr (Or.inr (Or.inl (by simp [Link.usable, hempty]))))
  · exact Or.inr (Or.inl fun hsame => horigin (Option.some.inj hsame))

theorem insertDiscovered_links {x : Txn} {f : FencedTask} {urls : List String} {s s' : Store}
    {b : PUnit} (hf : Fenced s f) (h : insertDiscovered url x f urls s = .ok (b, s')) :
    ∀ original ∈ urls, Excused url f s' (.found original) := by
  intro original horiginal
  unfold insertDiscovered at h
  split at h
  · rename_i hdepth
    exact Or.inr (Or.inr (Or.inl hdepth))
  · simp only at h
    split at h
    · rename_i hroom
      obtain ⟨-, rfl⟩ := pure_ok.mp h
      exact Or.inr (Or.inr (Or.inr (Or.inr ⟨f.job, hf.job_mem, hf.job_id, by omega⟩)))
    · rename_i hroom
      simp only [bind_ok] at h
      obtain ⟨n, s₁, h₁, h₂⟩ := h
      obtain ⟨-, hjobs, hle, hlinks⟩ := insertLinks_frontier h₁
      have htasks₂ : s'.tasks = s₁.tasks := by
        split at h₂
        · rw [exec_ok] at h₂
          rw [← h₂]
          rfl
        · rw [(pure_ok.mp h₂).2]
      rcases hlinks original horiginal with hfound | hscope | hfull
      · exact Or.inl (hfound.mono fun t ht => ⟨t, by rw [htasks₂]; exact ht, rfl, rfl⟩)
      · exact inScope_excused hscope
      · have hpos : n ≠ 0 := by omega
        rw [if_pos hpos, exec_ok] at h₂
        refine Or.inr (Or.inr (Or.inr (Or.inr ⟨{ f.job with
          discoveredCount := f.job.discoveredCount + n
          nextDiscoverySeq := f.job.nextDiscoverySeq + n }, ?_, hf.job_id, ?_⟩)))
        · rw [← h₂]
          simp only [Store.updateJobs, Table.mem_update]
          exact ⟨f.job, by rw [hjobs]; exact hf.job_mem, by simp [hf.job_id]⟩
        · simp only
          omega

theorem Excused.settled {x : Txn} {f : FencedTask} {metadata : Metadata}
    {downloaded artifacts : ℤ} {s : Store} {link : Link} (h : Excused url f s link) :
    Excused url f (settleCompleted x f metadata downloaded artifacts s) link := by
  rcases h with hfound | horigin | hdepth | husable | hfull
  · have htasks : s.tasks.Changed (fun t => t.id = f.task.id && t.leaseToken = some f.token)
        (fun t t' => t'.jobId = t.jobId ∧ t'.urlHash = t.urlHash)
        (settleCompleted x f metadata downloaded artifacts s).tasks := by
      refine Table.Changed.of_update fun t _ _ => ?_
      exact ⟨rfl, rfl⟩
    refine Or.inl (hfound.mono fun t ht => ?_)
    obtain ⟨t', ht', -, ⟨-, hsame⟩ | ⟨-, rfl⟩⟩ := htasks.mem_new ht
    · exact ⟨t', ht', hsame⟩
    · exact ⟨t', ht', rfl, rfl⟩
  · exact Or.inr (Or.inl horigin)
  · exact Or.inr (Or.inr (Or.inl hdepth))
  · exact Or.inr (Or.inr (Or.inr (Or.inl husable)))
  · obtain ⟨j, hj, hid, hpages⟩ := hfull
    refine Or.inr (Or.inr (Or.inr (Or.inr ?_)))
    simp only [Full, settleCompleted, releaseLease, resetOrigin, finishAttempt, Store.updateJobs,
      Store.updateTasks, Store.updateOrigins, Store.updateAttempts, Store.deleteOriginLeases,
      Table.mem_update]
    exact ⟨_, ⟨_, ⟨j, hj, rfl⟩, rfl⟩, by simp [hid], by simpa [hid] using hpages⟩

theorem completeTask_links {x : Txn} {taskId token : Uuid} {result : TaskResult} {s s' : Store}
    (h : completeTask url x taskId token result s = .ok (true, s')) :
    ∃ f, s.fencedTask taskId token = some f ∧
      ∀ original ∈ result.discoveredUrls, Excused url f s' (.found original) := by
  simp only [completeTask, bind_ok] at h
  obtain ⟨r, s₁, h₁, h⟩ := h
  rcases @activeLease_ok (fun _ => True) trivial _ _ _ _ _ _ h₁ with
    ⟨rfl, -⟩ | ⟨f, rfl, rfl, hf, rfl, rfl⟩
  · simp [pure_ok] at h
  · refine ⟨f, hf.fencedTask_eq, ?_⟩
    simp only at h
    split at h
    · simp only [bind_ok, exec_ok, pure_ok] at h
      obtain ⟨_, _, -, hfalse, -⟩ := h
      cases hfalse
    · simp only [bind_ok, read_ok] at h
      obtain ⟨found, _, ⟨-, rfl⟩, h⟩ := h
      split at h
      · simp [pure_ok] at h
      · simp only [bind_ok, attempt_ok, exec_ok, pure_ok] at h
        obtain ⟨_, s₂, h₂, _, s₃, h₃, _, _, rfl, -, rfl⟩ := h
        obtain ⟨R, -, rfl⟩ := Option.map_eq_some_iff.mp h₂
        have hf' : Fenced { s₁ with results := R } f :=
          ⟨⟨hf.mem, hf.leased, hf.token⟩, hf.job_mem, hf.job_id⟩
        exact fun original horiginal => (insertDiscovered_links hf' h₃ original horiginal).settled

/-! ## The worker interface -/

/-- The job has its tasks and its limit, and a full job stays full. -/
structure Keeps (s s' : Store) (jobId : Uuid) : Prop where
  tasks : ∀ t ∈ s.tasks, t ∈ s'.tasks
  jobs : (∃ j ∈ s.jobs, j.id = jobId) → ∃ j ∈ s'.jobs, j.id = jobId
  full : Full s jobId → Full s' jobId

theorem Keeps.trans {s s' s'' : Store} {jobId : Uuid} (h : Keeps s s' jobId)
    (h' : Keeps s' s'' jobId) : Keeps s s'' jobId :=
  ⟨fun t ht => h'.tasks t (h.tasks t ht), fun hj => h'.jobs (h.jobs hj),
    fun hf => h'.full (h.full hf)⟩

theorem Excused.mono {s s' : Store} {f : FencedTask} {link : Link}
    (hs : Keeps s s' f.task.jobId) (h : Excused url f s link) : Excused url f s' link := by
  rcases h with hfound | horigin | hdepth | husable | hfull
  · exact Or.inl (hfound.mono fun t ht => ⟨t, hs.tasks t ht, rfl, rfl⟩)
  · exact Or.inr (Or.inl horigin)
  · exact Or.inr (Or.inr (Or.inl hdepth))
  · exact Or.inr (Or.inr (Or.inr (Or.inl husable)))
  · exact Or.inr (Or.inr (Or.inr (Or.inr (hs.full hfull))))

/-- Counting one more task of a job. -/
theorem bump_keeps {s : Store} {jobId : Uuid} {k : ℤ} (hk : 0 ≤ k) :
    Keeps s (bump jobId k s) jobId where
  tasks := fun _ ht => ht
  jobs := by
    rintro ⟨j, hj, hid⟩
    simp only [bump, Store.updateJobs, Table.mem_update]
    exact ⟨_, ⟨j, hj, rfl⟩, by simp [hid]⟩
  full := by
    rintro ⟨j, hj, hid, hpages⟩
    simp only [Full, bump, Store.updateJobs, Table.mem_update]
    refine ⟨_, ⟨j, hj, rfl⟩, by simp [hid], ?_⟩
    simp only [hid, decide_true, if_true]
    omega

/-- A link the loop passes over is out of scope, or the job is full. -/
theorem remote_inScope_excused {f : FencedTask} {link : WorkerApi.RemoteLink} {s : Store} {j : Job}
    (hj : j ∈ s.jobs) (hid : j.id = f.task.jobId)
    (h : ¬(WorkerApi.inScope f link && decide (j.discoveredCount < j.maxPages)) = true) :
    Excused url f s (.remote link) := by
  by_cases hfull : j.maxPages ≤ j.discoveredCount
  · exact Or.inr (Or.inr (Or.inr (Or.inr ⟨j, hj, hid, hfull⟩)))
  · by_cases hdepth : f.job.config.maxDepth < f.task.depth + 1
    · exact Or.inr (Or.inr (Or.inl hdepth))
    · by_cases horigin : link.originKey = some f.task.originKey
      · refine Or.inr (Or.inr (Or.inr (Or.inl ?_)))
        cases hdigest : link.sha256 with
        | none => simp [Link.usable, hdigest]
        | some digest =>
            have hroom : j.discoveredCount < j.maxPages := not_le.mp hfull
            have hdeep : f.task.depth + 1 ≤ f.job.config.maxDepth := not_lt.mp hdepth
            simpa [WorkerApi.inScope, Link.usable, hdigest, horigin, hroom, hdeep] using h
      · exact Or.inr (Or.inl horigin)

theorem remote_insertLinks_links {x : Txn} {f : FencedTask} {links : List WorkerApi.RemoteLink}
    {draw : ℕ} {s s' : Store} {b : PUnit} (hjob : ∃ j ∈ s.jobs, j.id = f.task.jobId)
    (h : WorkerApi.insertLinks x f links draw s = .ok (b, s')) :
    Keeps s s' f.task.jobId ∧ ∀ link ∈ links, Excused url f s' (.remote link) := by
  induction links generalizing draw s with
  | nil =>
      obtain ⟨-, rfl⟩ := pure_ok.mp h
      exact ⟨⟨fun _ ht => ht, fun hj => hj, fun hf => hf⟩, by simp⟩
  | cons link links ih =>
      simp only [WorkerApi.insertLinks, bind_ok, read_ok] at h
      obtain ⟨found, _, ⟨hfound, rfl⟩, h⟩ := h
      obtain ⟨j, hj, hid⟩ := hjob
      obtain rfl : found = some j := hfound.symm.trans (Store.job?_eq_some.mpr ⟨hj, hid⟩)
      simp only at h
      split at h
      · cases hurl : link.url with
        | none => simp [hurl] at h
        | some reported =>
            cases hdigest : link.sha256 with
            | none => simp [hurl, hdigest] at h
            | some digest =>
                simp only [hurl, hdigest, bind_ok] at h
                obtain ⟨inserted, s₁, h₁, h₂⟩ := h
                obtain ⟨hthere, htasks, hjobs⟩ := insertTaskOnce_frontier h₁
                have hkeeps : Keeps s s₁ f.task.jobId :=
                  ⟨htasks, by rw [hjobs]; exact id, by unfold Full; rw [hjobs]; exact id⟩
                have hlink : Excused url f s₁ (.remote link) := by
                  refine Or.inl ?_
                  rw [Link.hash, hdigest]
                  exact hthere
                have hnext : ∃ s₂, Keeps s₁ s₂ f.task.jobId ∧
                    WorkerApi.insertLinks x f links (draw + 1) s₂ = .ok (b, s') := by
                  cases inserted with
                  | false => exact ⟨s₁, ⟨fun _ ht => ht, id, id⟩, h₂⟩
                  | true =>
                      simp only [if_true, bind_ok, exec_ok] at h₂
                      obtain ⟨_, _, rfl, h₂⟩ := h₂
                      exact ⟨_, bump_keeps zero_le_one, h₂⟩
                obtain ⟨s₂, hkeeps₂, h₂⟩ := hnext
                have hkeeps' := hkeeps.trans hkeeps₂
                obtain ⟨hrest, hlinks⟩ := ih (hkeeps'.jobs ⟨j, hj, hid⟩) h₂
                refine ⟨hkeeps'.trans hrest, fun link' hlink' => ?_⟩
                rcases List.mem_cons.mp hlink' with rfl | hlink'
                · exact hlink.mono (hkeeps₂.trans hrest)
                · exact hlinks link' hlink'
      · rename_i hscope
        obtain ⟨hkeeps, hlinks⟩ := ih ⟨j, hj, hid⟩ h
        refine ⟨hkeeps, fun link' hlink => ?_⟩
        rcases List.mem_cons.mp hlink with rfl | hlink
        · exact (remote_inScope_excused hj hid hscope).mono hkeeps
        · exact hlinks link' hlink

theorem complete_links {x : Txn} {role : String} {taskId token : Uuid}
    {artifact : WorkerApi.ArtifactRef} {report : WorkerApi.Report} {s s' : Store}
    (h : WorkerApi.complete x role taskId token artifact report s = .ok (true, s')) :
    ∃ f, s.fencedTask taskId token = some f ∧
      ∀ link ∈ report.discoveredUrls, Excused url f s' (.remote link) := by
  simp only [WorkerApi.complete, bind_ok, read_ok] at h
  obtain ⟨worker, s₁, h₁, found, _, ⟨hfound, rfl⟩, h⟩ := h
  obtain rfl := identity_ok h₁
  cases found with
  | none => simp [pure_ok] at h
  | some f =>
      obtain ⟨hf, rfl, rfl⟩ := activeTask_ok hfound
      refine ⟨f, hf.fencedTask_eq, ?_⟩
      simp only [bind_ok] at h
      obtain ⟨size, s₂, h₂, reported, s₃, h₃, h⟩ := h
      obtain ⟨rfl, -⟩ := castInt_ok h₂
      obtain ⟨rfl, -⟩ := castInt_ok h₃
      split at h
      · simp [pure_ok] at h
      · rename_i haccepts
        obtain ⟨hsize, hsize', hreported⟩ := acceptsReport_ok (by simpa using haccepts)
        split at h
        · simp at h
        · simp only [bind_ok, read_ok] at h
          obtain ⟨_, _, ⟨-, rfl⟩, h⟩ := h
          split at h
          · simp [pure_ok] at h
          · simp only [bind_ok, attempt_ok, exec_ok, pure_ok] at h
            obtain ⟨_, s₄, h₄, _, _, rfl, _, s₅, h₅, -, rfl⟩ := h
            obtain ⟨R, -, rfl⟩ := Option.map_eq_some_iff.mp h₄
            have hf' : Fenced { s₃ with results := R } f :=
              ⟨⟨hf.mem, hf.leased, hf.token⟩, hf.job_mem, hf.job_id⟩
            have hsettles := completeRows_settles (x := x) hf'.toHolds
              (fun _ => ⟨le_max_left 0 reported, hreported⟩) fun _ => ⟨hsize, hsize'⟩
            obtain ⟨j, hj, hjid, -⟩ := hsettles.counted hf'
            exact (remote_insertLinks_links ⟨j, hj, hjid⟩ h₅).2

/-- An accepted completion holds the task's lease and leaves out excused
links only. -/
theorem completion_links {r : Request} {s : Store} {taskId token : Uuid} {links : List Link}
    (hcall : completion r.call = some (taskId, token, links)) (hreply : reply url r s = .ok true) :
    ∃ f, s.fencedTask taskId token = some f ∧
      ∀ link ∈ links, Excused url f (step url r s) link := by
  have hbody := reply_ok hreply
  generalize step url r s = s' at hbody
  obtain ⟨x, call⟩ := r
  simp only at hcall hbody
  unfold completion at hcall
  split at hcall
  · cases hcall
    obtain ⟨f, hf, hlinks⟩ := completeTask_links hbody
    refine ⟨f, hf, fun link hlink => ?_⟩
    obtain ⟨original, horiginal, rfl⟩ := List.mem_map.mp hlink
    exact hlinks original horiginal
  · cases hcall
    obtain ⟨f, hf, hlinks⟩ := @complete_links url _ _ _ _ _ _ _ _ hbody
    refine ⟨f, hf, fun link hlink => ?_⟩
    obtain ⟨remote, hremote, rfl⟩ := List.mem_map.mp hlink
    exact hlinks remote hremote
  · cases hcall

/-! ## The frontier of a submitted job -/

theorem grown_of_run {jobId : Uuid} {s₀ : Store} (h₀ : s₀.blank) {requests : List Request}
    (hP : StepsMeet (step url) (fun r _ => ¬Request.Populates r jobId) s₀ requests) :
    Grown jobId (run url s₀ requests) := by
  have hblank : WellFormed s₀ ∧ Grown jobId s₀ := ⟨.of_blank h₀, .of_blank h₀⟩
  have hinv := run_preserves (I := fun s => WellFormed s ∧ Grown jobId s)
    (E := fun e => e ≠ .populated jobId) (fun r s e hr _ he heq => hr (by rwa [heq] at he))
    (fun s e s' he ha hs => ⟨hs.1.preserved ha, hs.2.preserved he ha hs.1⟩) hP hblank
  exact hinv.2

/-- The frontier of a job of `submit_job`, after any run in which no
`retry_failures` populates it: identities are distinct, the sequence numbers
are those below the number of tasks, which stays within the page limit, every
task but the seed lies one below its parent on the seed's origin, and an
accepted completion leaves out excused links only. -/
theorem frontier_exact (url : UrlIdentity) (jobId : Uuid) (s₀ : Store) (h₀ : s₀.blank)
    (requests : List Request)
    (hP : StepsMeet (step url) (fun r _ => ¬Request.Populates r jobId) s₀ requests)
    (j : Job) (hj : j ∈ (run url s₀ requests).jobs) (hid : j.id = jobId) :
    let s := run url s₀ requests
    (∀ t ∈ s.tasks, ∀ u ∈ s.tasks, t.jobId = jobId → u.jobId = jobId →
      t.urlHash = u.urlHash → t = u) ∧
    ((s.tasks.select fun t => t.jobId = jobId).map Task.discoverySeq).Perm
      ((List.range j.discoveredCount.toNat).map Nat.cast) ∧
    s.tasks.count (fun t => t.jobId = jobId) = j.discoveredCount ∧
    j.discoveredCount = j.nextDiscoverySeq ∧ j.nextDiscoverySeq ≤ j.maxPages ∧
    (∃ seed ∈ s.tasks, seed.jobId = jobId ∧ seed.discoverySeq = 0 ∧
      ∀ t ∈ s.tasks, t.jobId = jobId → t ≠ seed →
        t.originKey = seed.originKey ∧ t.depth ≤ j.config.maxDepth ∧
        ∃ parent ∈ s.tasks, parent.jobId = jobId ∧ t.discoveredFromTaskId = some parent.id ∧
          t.depth = parent.depth + 1) ∧
    (∀ r taskId token links, completion r.call = some (taskId, token, links) →
      reply url r s = .ok true → ∃ f, s.fencedTask taskId token = some f ∧
        ∀ link ∈ links, Excused url f (step url r s) link) := by
  intro s
  subst hid
  obtain ⟨hn, hr⟩ := grown_of_run h₀ hP j hj rfl
  refine ⟨?_, ?_, hn.count_eq, hn.same, hr.pages, ?_, ?_⟩
  · intro t ht u hu htjob hujob hhash
    exact task_eq_of_url ht hu (htjob.trans hujob.symm) hhash
  · rw [hn.same]
    exact hn.perm
  · obtain ⟨seed, hseed, hjob, hzero, horigin⟩ := hr.origin hn
    refine ⟨seed, hseed, hjob, hzero, fun t ht htjob hne => ⟨horigin t ht htjob, ?_⟩⟩
    cases hfrom : t.discoveredFromTaskId with
    | none =>
        have htzero := (hr.seed t ht htjob hfrom).1
        exact absurd (hn.unique t ht seed hseed htjob hjob (by rw [htzero, hzero])) hne
    | some id =>
        obtain ⟨u, hu, rfl, hujob, -, -, hdepth, hmax, -⟩ := hr.parent t ht htjob id hfrom
        exact ⟨hmax, u, hu, hujob, rfl, hdepth⟩
  · exact fun r taskId token links hcall hreply => completion_links hcall hreply

/-- The sample crawl has found two pages. -/
theorem frontier_exact_crawl :
    let s := run Sample.identity {} Sample.crawl
    ∃ j ∈ s.jobs, j.discoveredCount = 2 ∧ s.tasks.count (fun t => t.jobId = 1) = 2 := by
  intro s
  obtain ⟨j, hj, hid, htwo⟩ : ∃ j ∈ s.jobs, j.id = 1 ∧ j.discoveredCount = 2 := by decide
  have hfrontier := frontier_exact Sample.identity 1 {} (by simp [Store.blank]) Sample.crawl
    (stepsMeet_of_forall fun r hr _ => ?_) j hj hid
  · exact ⟨j, hj, htwo, hfrontier.2.2.1.trans htwo⟩
  · rintro ⟨config, rows, hcall⟩
    simp only [Sample.crawl, List.mem_cons, List.not_mem_nil, or_false] at hr
    rcases hr with rfl | rfl | rfl <;> cases hcall

end Lifecycle

end CrawlTrove
