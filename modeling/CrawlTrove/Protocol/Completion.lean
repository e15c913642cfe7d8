import CrawlTrove.Protocol.Failure

/-!
# The completion of a task, written twice

`complete_task` stores a page and inserts the links it discovered in Python,
`worker_api.complete` in PL/pgSQL, with the hashing done by the worker.
`completions_agree_iff` says when both accept the same result and leave the
same task, counters, children, origin and permits: never for a result over
budget, which only the core settles, and never when a child is inserted, whose
priority only the core sets.
-/

namespace CrawlTrove

open Relational Transaction

open Lifecycle

namespace Protocol

/-! ## Results of a page -/

/-- What a worker has of a page when it completes the task. -/
structure Completion where
  finalUrl : String
  markdown : String
  used : ℤ
  screenshot : ℤ
  urls : List String

namespace Completion

/-- The result as the core receives it. -/
def result (c : Completion) : TaskResult :=
  { finalUrl := c.finalUrl
    markdown := c.markdown
    metadata :=
      { downloadedBytes := .value (some c.used) (some c.used)
        screenshotBytes := .value (some c.screenshot) (some c.screenshot) }
    discoveredUrls := c.urls }

/-- The stored markdown, at `uri`. -/
def artifact (url : UrlIdentity) (uri : String) (c : Completion) : WorkerApi.ArtifactRef :=
  { uri := some uri
    sha256 := some (url.sha256 c.markdown)
    mediaType := some "text/markdown"
    size := .value (some c.markdown.utf8ByteSize) (some c.markdown.utf8ByteSize) }

/-- A discovered link as `RemoteRepository.complete_task` hashes it. -/
def link (url : UrlIdentity) (original : String) : WorkerApi.RemoteLink :=
  { url := some original
    sha256 := some (url.sha256 original)
    originKey := some (url.originKey original) }

/-- The metadata of a remote completion. -/
def report (url : UrlIdentity) (c : Completion) : WorkerApi.Report :=
  { downloadedBytes := .value (some c.used) (some c.used)
    finalUrl := some c.finalUrl
    discoveredUrls := c.urls.map (link url) }

end Completion

/-! ## What must be the same -/

/-- What is compared of a child. -/
structure Child where
  jobId : Uuid
  normalizedUrl : String
  urlHash : String
  depth : ℤ
  priority : ℤ
  discoverySeq : ℤ
  requiredCapabilities : List String
deriving DecidableEq

def childOf (t : Task) : Child :=
  { jobId := t.jobId, normalizedUrl := t.normalizedUrl, urlHash := t.urlHash, depth := t.depth
    priority := t.priority, discoverySeq := t.discoverySeq
    requiredCapabilities := t.requiredCapabilities }

def children (s : Store) : List Child := s.tasks.rows.map childOf

/-- The completed task, all children, the counters, the origins and the permits. -/
def completionView (taskId : Uuid) (s : Store) :
    Option Task × List Child × List Job × Table Origin × Table OriginLease :=
  (s.task? taskId, children s, counters s.jobs, s.origins, s.originLeases)

/-- Both halves accept or reject the result alike and leave the same rows. -/
def CompletionsAgree (url : UrlIdentity) (x : Txn) (role uri : String) (taskId token : Uuid)
    (c : Completion) (s : Store) : Prop :=
  let core := commit (completeTask url x taskId token c.result) s
  let remote :=
    commit (WorkerApi.complete x role taskId token (c.artifact url uri) (c.report url)) s
  core.1 = remote.1 ∧ completionView taskId core.2 = completionView taskId remote.2

/-! ## When they agree -/

/-- The page, with its screenshot, is larger than what the lease reserved. -/
def OverBudget (f : FencedTask) (c : Completion) : Prop :=
  f.task.byteBudgetReserved < max 0 c.used ∨
    f.task.artifactBudgetReserved < c.markdown.utf8ByteSize + max 0 c.screenshot

instance (f : FencedTask) (c : Completion) : Decidable (OverBudget f c) :=
  inferInstanceAs (Decidable (_ ∨ _))

/-- The job has a task for a URL of this digest. -/
def known (jobId : Uuid) (digest : String) (s : Store) : Bool :=
  s.tasks.any fun t => t.jobId = jobId && t.urlHash = digest

/-- The core takes the link for a new child. -/
def newToCore (url : UrlIdentity) (f : FencedTask) (s : Store) (original : String) : Prop :=
  inScope url f original = true ∧
    known f.task.jobId (url.sha256 (url.normalizeUrl original)) s = false

/-- The worker protocol takes the link for a new child. -/
def newToWorker (url : UrlIdentity) (f : FencedTask) (s : Store) (original : String) : Prop :=
  url.originKey original = f.task.originKey ∧
    known f.task.jobId (url.sha256 original) s = false

/-- A page of this task may have children at all. -/
def MayDiscover (f : FencedTask) : Prop :=
  f.task.depth + 1 ≤ f.job.config.maxDepth ∧ f.job.discoveredCount < f.job.maxPages

/-- Either half inserts a child. -/
def Discovers (url : UrlIdentity) (f : FencedTask) (c : Completion) (s : Store) : Prop :=
  MayDiscover f ∧ ∃ original ∈ c.urls, newToCore url f s original ∨ newToWorker url f s original

/-- When both halves agree on the completion of the lease `f`. -/
def Completion.AgreesOn (url : UrlIdentity) (f : FencedTask) (s : Store) (c : Completion) : Prop :=
  ¬ OverBudget f c ∧
    ((∃ r ∈ s.results, r.taskId = f.task.id) ∨ (c.screenshot ≤ 0 ∧ ¬ Discovers url f c s))

/-- The uuids a transaction draws are new and distinct; a result has the id of
its own task or a drawn one. -/
structure Fresh (x : Txn) (taskId : Uuid) (s : Store) : Prop where
  distinct : Function.Injective x.uuid
  tasks : ∀ n, ∀ t ∈ s.tasks, t.id ≠ x.uuid n
  results : ∀ r ∈ s.results, (∀ n, r.id ≠ x.uuid n) ∧ (r.id = taskId → r.taskId = taskId)

/-! ## Inserting children -/

section Children

variable {x : Txn} {f : FencedTask} {s : Store}

/-- The draws from here on are new. -/
def Draws (x : Txn) (draw : ℕ) (s : Store) : Prop :=
  ∀ n, draw ≤ n → ∀ t ∈ s.tasks, t.id ≠ x.uuid n

/-- An insert of a task finds it known, or appends it. -/
theorem insertTaskOnce_run {t : Task} (hjob : ∃ j ∈ s.jobs, j.id = t.jobId)
    (hfresh : ∀ u ∈ s.tasks, u.id ≠ t.id) :
    (known t.jobId t.urlHash s = true ∧ insertTaskOnce t s = .ok (false, s)) ∨
      known t.jobId t.urlHash s = false ∧ ∃ T : Table Task, T.rows = s.tasks.rows ++ [t] ∧
        insertTaskOnce t s = .ok (true, { s with tasks := T }) := by
  unfold insertTaskOnce
  rw [read_bind_run]
  cases hknown : s.tasks.any fun u => u.jobId = t.jobId && u.urlHash = t.urlHash with
  | true => exact Or.inl ⟨hknown, rfl⟩
  | false =>
      have hrows : ∃ T, s.tasks.insert? t = some T ∧ T.rows = s.tasks.rows ++ [t] := by
        cases hinsert : s.tasks.insert? t with
        | none =>
            obtain ⟨u, hu, hclash⟩ := Table.insert?_eq_none.mp hinsert
            have hsame : u.id = t.id ∨ (u.jobId = t.jobId ∧ u.urlHash = t.urlHash) := by
              simpa [Clashes, Keyed.clash, Keyed.key] using hclash
            rcases hsame with hid | hurl
            · exact absurd hid (hfresh u hu)
            · have hno := Table.any_eq_false.mp hknown u hu
              simp [hurl] at hno
        | some T => exact ⟨T, rfl, (Table.insert?_eq_some.mp hinsert).2⟩
      obtain ⟨T, hinsert, hrows⟩ := hrows
      have hexists : (s.jobs.any fun j => j.id = t.jobId) = true := by
        obtain ⟨j, hj, hid⟩ := hjob
        exact Table.any_eq_true.mpr ⟨j, hj, decide_eq_true hid⟩
      have hinserted : s.insertTask t = some { s with tasks := T } := by
        unfold Store.insertTask
        rw [if_pos hexists, hinsert]
        rfl
      refine Or.inr ⟨hknown, T, hrows, ?_⟩
      rw [if_neg Bool.false_ne_true]
      exact attempt_bind_run_some hinserted

/-- A task inserted under the next draw. -/
theorem draws_insert {draw : ℕ} {t : Task} {T : Table Task} (hdistinct : Function.Injective x.uuid)
    (hdraws : Draws x draw s) (hid : t.id = x.uuid draw) (hT : T.rows = s.tasks.rows ++ [t]) :
    Draws x (draw + 1) { s with tasks := T } := by
  intro n hn u hu
  have hrow : u ∈ s.tasks.rows ++ [t] := hT ▸ hu
  rcases List.mem_append.mp hrow with hold | hnew
  · exact hdraws n (by omega) u hold
  · rw [List.mem_singleton.mp hnew, hid]
    intro heq
    have := hdistinct heq
    omega

theorem draws_mono {draw : ℕ} (hdraws : Draws x draw s) : Draws x (draw + 1) s :=
  fun n hn => hdraws n (by omega)

/-- The store after some children of one priority were appended. -/
structure Grows (priority : ℤ) (new : List Task) (s s' : Store) : Prop where
  tasks : s'.tasks.rows = s.tasks.rows ++ new
  priority : ∀ t ∈ new, t.priority = priority

theorem Grows.cons {priority : ℤ} {t : Task} {T : Table Task} {new : List Task} {s' s'' : Store}
    (hT : T.rows = s.tasks.rows ++ [t]) (hs' : s'.tasks = T) (ht : t.priority = priority)
    (h : Grows priority new s' s'') : Grows priority (t :: new) s s'' where
  tasks := by rw [h.tasks, hs', hT, List.append_assoc, List.singleton_append]
  priority := by
    intro u hu
    rcases List.mem_cons.mp hu with rfl | hu
    · exact ht
    · exact h.priority u hu

/-- The loop of `_insert_discovered` appends children while there is room, and
at least one if a link leads to one. -/
theorem insertLinks_run (url : UrlIdentity) (remaining : ℤ) (urls : List String) (draw : ℕ)
    (accepted : ℤ) (hdistinct : Function.Injective x.uuid)
    (hjob : ∃ j ∈ s.jobs, j.id = f.task.jobId) (hdraws : Draws x draw s) :
    ∃ new T, Grows (f.task.depth + 1) new s { s with tasks := T } ∧
      insertLinks url x f remaining urls draw accepted s =
        .ok (accepted + new.length, { s with tasks := T }) ∧
      (accepted < remaining → (new ≠ [] ↔ ∃ original ∈ urls, newToCore url f s original)) := by
  induction urls generalizing draw accepted s with
  | nil =>
      refine ⟨[], s.tasks, ⟨by simp, by simp⟩, ?_, by simp⟩
      simp [insertLinks]
  | cons original urls ih =>
      unfold insertLinks
      by_cases hfull : remaining ≤ accepted
      · refine ⟨[], s.tasks, ⟨by simp, by simp⟩, ?_, fun hroom => absurd hroom (not_lt.mpr hfull)⟩
        rw [if_pos hfull, pure_run]
        simp
      · rw [if_neg hfull]
        -- A link that leads nowhere leaves the rest of the loop.
        have hskip : ∀ draw, Draws x draw s → ¬ newToCore url f s original →
            ∃ new T, Grows (f.task.depth + 1) new s { s with tasks := T } ∧
              insertLinks url x f remaining urls draw accepted s =
                .ok (accepted + new.length, { s with tasks := T }) ∧
              (accepted < remaining →
                (new ≠ [] ↔ ∃ o ∈ original :: urls, newToCore url f s o)) := by
          intro draw hdraws hno
          obtain ⟨new, T, hgrows, hrun, hnew⟩ := ih draw accepted hjob hdraws
          refine ⟨new, T, hgrows, hrun, fun hroom => (hnew hroom).trans ?_⟩
          simp [hno]
        by_cases hscope : inScope url f original = true
        · rw [if_neg (by simp [hscope])]
          let t := discoveredTask url x.now f (x.uuid draw) original
            (f.job.nextDiscoverySeq + accepted)
          have hfresh : ∀ u ∈ s.tasks, u.id ≠ t.id := hdraws draw (le_refl draw)
          rcases insertTaskOnce_run (t := t) hjob hfresh with
            ⟨hknown, hinsert⟩ | ⟨hknown, T, hT, hinsert⟩
          · rw [bind_run_ok hinsert, if_neg Bool.false_ne_true]
            refine hskip _ (draws_mono hdraws) fun hnew => ?_
            have hno : known t.jobId t.urlHash s = false := hnew.2
            rw [hknown] at hno
            cases hno
          · rw [bind_run_ok hinsert, if_pos rfl]
            obtain ⟨new, U, hgrows, hrun, -⟩ := ih (draw + 1) (accepted + 1)
              (s := { s with tasks := T }) hjob (draws_insert hdistinct hdraws rfl hT)
            refine ⟨t :: new, U, Grows.cons hT rfl rfl hgrows, ?_, fun _ => ?_⟩
            · rw [hrun, List.length_cons]
              push_cast
              rw [add_assoc, add_comm 1]
            · refine iff_of_true (List.cons_ne_nil _ _) ⟨original, List.mem_cons_self, ?_⟩
              exact ⟨hscope, hknown⟩
        · rw [if_pos (by simp [hscope])]
          exact hskip _ hdraws fun hnew => hscope hnew.1

/-- The job row after a child was counted. -/
def countChild (j : Job) : Job :=
  { j with discoveredCount := j.discoveredCount + 1, nextDiscoverySeq := j.nextDiscoverySeq + 1 }

theorem job?_countChild {jobId : Uuid} {j : Job} {T : Table Task} (h : s.job? jobId = some j) :
    (({ s with tasks := T } : Store).updateJobs (fun j => j.id = jobId) countChild).job? jobId =
      some (countChild j) := by
  obtain ⟨hj, hid⟩ := Store.job?_eq_some.mp h
  exact Store.job?_eq_some.mpr
    ⟨Table.mem_update_row (p := fun j : Job => j.id = jobId) (f := countChild) (fun _ => rfl) hj
      (decide_eq_true hid), hid⟩

/-- The loop of `worker_api.complete` over the links of a worker. -/
theorem remote_insertLinks_run {url : UrlIdentity} (urls : List String) {draw : ℕ} {j : Job}
    (hdigest : ∀ u, WorkerApi.lowerHexDigest (url.sha256 u) = true)
    (hdistinct : Function.Injective x.uuid) (hjob : s.job? f.task.jobId = some j)
    (hdraws : Draws x draw s) :
    ∃ new s', Grows 0 new s s' ∧
      WorkerApi.insertLinks x f (urls.map (Completion.link url)) draw s = .ok (⟨⟩, s') ∧
      (new = [] → s' = s) ∧
      (new ≠ [] ↔ (f.task.depth + 1 ≤ f.job.config.maxDepth ∧ j.discoveredCount < j.maxPages) ∧
        ∃ original ∈ urls, newToWorker url f s original) := by
  induction urls generalizing draw s j with
  | nil => exact ⟨[], s, ⟨by simp, by simp⟩, rfl, fun _ => rfl, by simp⟩
  | cons original urls ih =>
      -- A link that leads nowhere leaves the rest of the loop.
      have hskip : ¬ ((f.task.depth + 1 ≤ f.job.config.maxDepth ∧ j.discoveredCount < j.maxPages) ∧
            newToWorker url f s original) →
          ∃ new s', Grows 0 new s s' ∧
            WorkerApi.insertLinks x f (urls.map (Completion.link url)) (draw + 1) s =
              .ok (⟨⟩, s') ∧ (new = [] → s' = s) ∧
            (new ≠ [] ↔ (f.task.depth + 1 ≤ f.job.config.maxDepth ∧
              j.discoveredCount < j.maxPages) ∧
                ∃ o ∈ original :: urls, newToWorker url f s o) := by
        intro hno
        obtain ⟨new, s', hgrows, hrun, hquiet, hnew⟩ := ih hjob (draws_mono hdraws)
        refine ⟨new, s', hgrows, hrun, hquiet, hnew.trans (and_congr_right fun hroom => ?_)⟩
        have hnot : ¬ newToWorker url f s original := fun h => hno ⟨hroom, h⟩
        simp [hnot]
      rw [List.map_cons, WorkerApi.insertLinks, read_bind_run, hjob]
      dsimp only
      by_cases hscope : (f.task.depth + 1 ≤ f.job.config.maxDepth ∧
          url.originKey original = f.task.originKey) ∧ j.discoveredCount < j.maxPages
      · have htaken : (WorkerApi.inScope f (Completion.link url original) &&
            decide (j.discoveredCount < j.maxPages)) = true := by
          simp [WorkerApi.inScope, Completion.link, hscope.1.1, hscope.1.2, hscope.2, hdigest]
        rw [if_pos htaken]
        let t := WorkerApi.discoveredTask x.now f (x.uuid draw) original (url.sha256 original)
          j.nextDiscoverySeq
        have hfresh : ∀ u ∈ s.tasks, u.id ≠ t.id := hdraws draw (le_refl draw)
        have hexists : ∃ k ∈ s.jobs, k.id = t.jobId := ⟨j, Store.job?_eq_some.mp hjob⟩
        show ∃ new s', _ ∧ (insertTaskOnce t >>= _) s = _ ∧ _
        rcases insertTaskOnce_run (t := t) hexists hfresh with
          ⟨hknown, hinsert⟩ | ⟨hknown, T, hT, hinsert⟩
        · rw [bind_run_ok hinsert]
          refine hskip fun hnew => ?_
          have hno : known t.jobId t.urlHash s = false := hnew.2.2
          rw [hknown] at hno
          cases hno
        · rw [bind_run_ok hinsert, if_pos rfl, exec_bind_run]
          let counted := ({ s with tasks := T } : Store).updateJobs
            (fun j => j.id = f.task.jobId) countChild
          have hdraws' : Draws x (draw + 1) counted := draws_insert hdistinct hdraws rfl hT
          obtain ⟨new, s', hgrows, hrun, -, -⟩ := ih (s := counted) (job?_countChild hjob) hdraws'
          refine ⟨t :: new, s', Grows.cons hT rfl rfl hgrows, hrun, ?_, ?_⟩
          · exact fun h => absurd h (List.cons_ne_nil _ _)
          · exact iff_of_true (List.cons_ne_nil _ _)
              ⟨⟨hscope.1.1, hscope.2⟩, original, List.mem_cons_self, hscope.1.2, hknown⟩
      · have hleft : (WorkerApi.inScope f (Completion.link url original) &&
            decide (j.discoveredCount < j.maxPages)) = false := by
          rw [← Bool.not_eq_true]
          intro htaken
          simp only [WorkerApi.inScope, Completion.link, Bool.and_eq_true, decide_eq_true_eq,
            Option.some.injEq] at htaken
          exact hscope ⟨htaken.1.1, htaken.2⟩
        rw [if_neg (by simp [hleft])]
        exact hskip fun hnew => hscope ⟨⟨hnew.1.1, hnew.2.1⟩, hnew.1.2⟩

end Children

/-! ## The rows of a completion -/

section Rows

variable {x : Txn} {f : FencedTask} {s : Store} {taskId token : Uuid}

/-- The task row of a completed lease. -/
def completedTask (now : Time) (t : Task) : Task :=
  { t.unlease with state := .succeeded, finishedAt := some now }

theorem key_completedTask (now : Time) (t : Task) :
    Keyed.key (completedTask now t) = Keyed.key t := rfl

/-- The job row of a completed lease. -/
def completedRow (t : Task) (used artifacts : ℤ) (j : Job) : Job :=
  { j with
    reservedBytes := max 0 (j.reservedBytes - t.byteBudgetReserved)
    reservedArtifactBytes := max 0 (j.reservedArtifactBytes - t.artifactBudgetReserved)
    downloadedBytes := j.downloadedBytes + used
    artifactBytes := j.artifactBytes + artifacts
    terminalCount := j.terminalCount + 1
    succeededCount := j.succeededCount + 1 }

theorem key_completedRow (t : Task) (used artifacts : ℤ) (j : Job) :
    Keyed.key (completedRow t used artifacts j) = Keyed.key j := rfl

theorem settleCompleted_tasks (hf : Fenced s f) (metadata : Metadata) (used artifacts : ℤ) :
    (settleCompleted x f metadata used artifacts s).tasks =
      s.tasks.update (fun t => t.id = f.task.id) (completedTask x.now)
        (key_completedTask x.now) :=
  @Table.update_congr _ _ _ _ _ (completedTask x.now) (key_completedTask x.now) hf.fence_eq

theorem settleCompleted_jobs (metadata : Metadata) (used artifacts : ℤ) :
    (settleCompleted x f metadata used artifacts s).jobs =
      s.jobs.update (fun j => j.id = f.task.jobId) (completedRow f.task used artifacts)
        (key_completedRow f.task used artifacts) := by
  simp only [settleCompleted, releaseLease, resetOrigin, finishAttempt, Store.updateJobs,
    Store.updateTasks, Store.updateOrigins, Store.updateAttempts, Store.deleteOriginLeases]
  rw [Table.update_update]
  · rfl
  · intro j; rfl

/-- Rewriting columns a child is not compared in. -/
theorem children_updateTasks {p : Task → Bool} {g : Task → Task} {T : Table Task}
    (hg : ∀ t, Keyed.key (g t) = Keyed.key t) (hsame : ∀ t, childOf (g t) = childOf t) :
    (T.update p g hg).rows.map childOf = T.rows.map childOf := by
  unfold Table.update
  rw [List.map_map]
  refine List.map_congr_left fun t _ => ?_
  show childOf (if p t then g t else t) = childOf t
  split
  · exact hsame t
  · rfl

theorem children_settleCompleted (metadata : Metadata) (used artifacts : ℤ) :
    children (settleCompleted x f metadata used artifacts s) = children s :=
  children_updateTasks (g := completedTask x.now) (key_completedTask x.now) fun _ => rfl

theorem children_completeRows (used size : ℤ) :
    children (WorkerApi.completeRows x f used size s) = children s :=
  children_updateTasks (g := completedTask x.now) (key_completedTask x.now) fun _ => rfl

/-- A completion without children shows the same through both halves if the
same bytes are counted. -/
theorem completed_view_iff (hf : Fenced s f) (metadata : Metadata) (used artifacts size : ℤ)
    (R R' : Table CrawlResult) :
    completionView taskId (settleCompleted x f metadata used artifacts { s with results := R }) =
      completionView taskId (WorkerApi.completeRows x f used size { s with results := R' }) ↔
      artifacts = size := by
  let core := settleCompleted x f metadata used artifacts { s with results := R }
  let remote := WorkerApi.completeRows x f used size { s with results := R' }
  have htasks : core.tasks = remote.tasks :=
    settleCompleted_tasks (s := s) hf metadata used artifacts
  have hjobs : counters core.jobs = counters remote.jobs ↔ artifacts = size := by
    have hcore : core.jobs = s.jobs.update _ _ (key_completedRow f.task used artifacts) :=
      settleCompleted_jobs metadata used artifacts
    have hremote : remote.jobs = s.jobs.update (fun j => j.id = f.task.jobId)
        (completedRow f.task used size) (key_completedRow f.task used size) := rfl
    rw [hcore, hremote, counters_update_inj]
    constructor
    · intro h
      have hrow := h f.job hf.job_mem (decide_eq_true hf.job_id)
      simpa [completedRow, Job.counters] using hrow
    · rintro rfl j - -
      rfl
  show (core.task? taskId, children core, counters core.jobs, core.origins, core.originLeases) =
    (remote.task? taskId, children remote, counters remote.jobs, remote.origins,
      remote.originLeases) ↔ _
  have htask : core.task? taskId = remote.task? taskId := by
    unfold Store.task?
    rw [htasks]
  have hchildren : children core = children remote := by
    unfold children
    rw [htasks]
  rw [htask, hchildren, ← hjobs]
  have horigins : core.origins = remote.origins := rfl
  have hleases : core.originLeases = remote.originLeases := rfl
  simp [horigins, hleases]

/-- Children of different priorities show. -/
theorem children_grows_ne {s₁ s₂ s₁' s₂' : Store} {new new' : List Task} {p p' : ℤ}
    (hstart : children s₁ = children s₂) (h : Grows p new s₁ s₁') (h' : Grows p' new' s₂ s₂')
    (hne : p ≠ p') (hnew : new ≠ [] ∨ new' ≠ []) : children s₁' ≠ children s₂' := by
  intro heq
  have hlists : new.map childOf = new'.map childOf := by
    unfold children at heq hstart
    rw [h.tasks, h'.tasks, List.map_append, List.map_append, hstart] at heq
    exact List.append_cancel_left heq
  cases hcore : new with
  | nil =>
      rw [hcore] at hlists hnew
      have hnone : new' = [] := List.map_eq_nil_iff.mp hlists.symm
      simp [hnone] at hnew
  | cons t ts =>
      cases hremote : new' with
      | nil => simp [hcore, hremote] at hlists
      | cons u us =>
          have hhead : childOf t = childOf u := by
            rw [hcore, hremote, List.map_cons, List.map_cons] at hlists
            exact (List.cons.inj hlists).1
          have hsame : t.priority = u.priority := congrArg Child.priority hhead
          rw [h.priority t (by simp [hcore]), h'.priority u (by simp [hremote])] at hsame
          exact hne hsame

end Rows

/-! ## The core's side -/

section Core

variable {x : Txn} {url : UrlIdentity} {f : FencedTask} {s : Store} {taskId token : Uuid}
  {c : Completion}

theorem insertResult_run {r : CrawlResult}
    (hfresh : ∀ q ∈ s.results, q.id ≠ r.id ∧ q.taskId ≠ r.taskId) :
    ∃ R, s.insertResult r = some { s with results := R } := by
  cases hinsert : s.results.insert? r with
  | none =>
      obtain ⟨q, hq, hclash⟩ := Table.insert?_eq_none.mp hinsert
      have hsame : q.id = r.id ∨ q.taskId = r.taskId := by
        simpa [Clashes, Keyed.clash, Keyed.key] using hclash
      obtain ⟨hid, htask⟩ := hfresh q hq
      exact absurd hsame (not_or.mpr ⟨hid, htask⟩)
  | some R => exact ⟨R, by rw [Store.insertResult, hinsert]; rfl⟩

/-- `_insert_discovered` appends children, at least one if a link leads to one. -/
theorem insertDiscovered_run (url : UrlIdentity) (urls : List String)
    (hdistinct : Function.Injective x.uuid)
    (hjob : ∃ j ∈ s.jobs, j.id = f.task.jobId) (hdraws : Draws x 1 s) :
    ∃ new s', Grows (f.task.depth + 1) new s s' ∧
      insertDiscovered url x f urls s = .ok (⟨⟩, s') ∧ (new = [] → s' = s) ∧
      (new ≠ [] ↔ MayDiscover f ∧ ∃ original ∈ urls, newToCore url f s original) := by
  have hnone : ¬ MayDiscover f → insertDiscovered url x f urls s = .ok (⟨⟩, s) →
      ∃ new s', Grows (f.task.depth + 1) new s s' ∧
        insertDiscovered url x f urls s = .ok (⟨⟩, s') ∧ (new = [] → s' = s) ∧
        (new ≠ [] ↔ MayDiscover f ∧ ∃ original ∈ urls, newToCore url f s original) :=
    fun hno hrun => ⟨[], s, ⟨by simp, by simp⟩, hrun, fun _ => rfl, by simp [hno]⟩
  by_cases hdepth : f.job.config.maxDepth < f.task.depth + 1
  · apply hnone
    · exact fun h => absurd h.1 (not_le.mpr hdepth)
    · unfold insertDiscovered
      rw [if_pos hdepth, pure_run]
  · by_cases hfull : f.job.maxPages - f.job.discoveredCount ≤ 0
    · apply hnone
      · intro h
        have := h.2
        omega
      · unfold insertDiscovered
        dsimp only
        rw [if_neg hdepth, if_pos hfull, pure_run]
    · have hroom : MayDiscover f := ⟨not_lt.mp hdepth, by omega⟩
      obtain ⟨new, T, hgrows, hrun, hnew⟩ := insertLinks_run url
        (f.job.maxPages - f.job.discoveredCount) urls 1 0 hdistinct hjob hdraws
      have hnew' := hnew (not_le.mp hfull)
      have hloop : insertDiscovered url x f urls s =
          (if (0 + (new.length : ℤ)) ≠ 0 then
            exec <| Store.updateJobs (fun j => j.id = f.task.jobId) fun j =>
              { j with
                discoveredCount := j.discoveredCount + (0 + (new.length : ℤ))
                nextDiscoverySeq := f.job.nextDiscoverySeq + (0 + (new.length : ℤ)) }
          else pure ⟨⟩ : Tx PUnit) { s with tasks := T } := by
        unfold insertDiscovered
        dsimp only
        rw [if_neg hdepth, if_neg hfull]
        exact bind_run_ok hrun
      cases hlist : new with
      | nil =>
          rw [hlist] at hloop hgrows hnew'
          have hsame : T = s.tasks := Table.ext (by simpa using hgrows.tasks)
          refine ⟨[], s, ⟨by simp, by simp⟩, ?_, fun _ => rfl, ?_⟩
          · rw [hloop, hsame]
            rfl
          · simp only [hroom, true_and]
            exact hnew'
      | cons t ts =>
          rw [hlist] at hloop hgrows hnew'
          have hcount : (0 : ℤ) + ((t :: ts).length : ℤ) ≠ 0 := by
            rw [List.length_cons]
            omega
          rw [if_pos hcount] at hloop
          refine ⟨t :: ts, ({ s with tasks := T } : Store).updateJobs
            (fun j => j.id = f.task.jobId) (fun j =>
              { j with
                discoveredCount := j.discoveredCount + (0 + ((t :: ts).length : ℤ))
                nextDiscoverySeq := f.job.nextDiscoverySeq + (0 + ((t :: ts).length : ℤ)) }),
            ⟨hgrows.tasks, hgrows.priority⟩, hloop, ?_, ?_⟩
          · exact fun h => absurd h (List.cons_ne_nil _ _)
          · simp only [hroom, true_and]
            exact hnew'

/-- The settled row of a lease that failed, whatever else the failure drains. -/
theorem failed_row (hf : Fenced s f) (errorClass errorCode : Option String) (outcome : String)
    (metadata : Metadata) (used : ℤ) :
    settledTask x.now .permanentFailed errorClass errorCode f.task ∈
      (settleJobState x.now f.task.jobId .permanentFailed
        (endLease x.now f .permanentFailed errorClass errorCode outcome metadata used
          s)).tasks := by
  let E := endLease x.now f .permanentFailed errorClass errorCode outcome metadata used s
  have hE : settledTask x.now .permanentFailed errorClass errorCode f.task ∈
      (closeCancelled x.now f.task.jobId E).tasks := by
    show _ ∈ E.tasks
    rw [endLease_tasks hf]
    exact Table.mem_update_row (key_settledTask x.now .permanentFailed errorClass errorCode) hf.mem
      (decide_eq_true rfl)
  rw [settleFailed_eq hf]
  split
  · rw [drainUnleased_tasks]
    exact Table.mem_update_other (p := fun t : Task => t.jobId = f.task.jobId && t.state.queued)
      (f := drainTask x.now "max_failures_exceeded") (fun _ => rfl) hE (Bool.and_false _)
  · exact hE

/-- A result over budget through the core. -/
theorem core_overBudget (url : UrlIdentity) (hfence : s.fencedTask taskId token = some f)
    (hcurrent : Current x.now f) (hover : OverBudget f c) :
    ∃ s', completeTask url x taskId token c.result s = .ok (false, s') ∧
      ∃ t, s'.task? taskId = some t ∧ t.state = .permanentFailed := by
  obtain ⟨hf, hid, -⟩ := Fenced.of_fencedTask hfence
  let reason := if f.task.byteBudgetReserved < max 0 c.used then "byte_budget_exhausted"
    else "artifact_budget_exhausted"
  refine ⟨rejectOverBudget x f c.result.metadata reason s, ?_, ?_⟩
  · unfold completeTask
    rw [bind_run_ok (activeLease_current hfence hcurrent)]
    dsimp only [Completion.result, reportedBytes, ReportedInt.py?]
    rw [if_pos (show f.task.byteBudgetReserved < max 0 c.used ∨
      f.task.artifactBudgetReserved < c.markdown.utf8ByteSize + max 0 c.screenshot from hover)]
    rfl
  · refine ⟨settledTask x.now .permanentFailed (some "budget") (some reason) f.task, ?_, rfl⟩
    refine Store.task?_eq_some.mpr ⟨?_, hid⟩
    unfold rejectOverBudget
    dsimp only
    rw [charge_terminalize, drainUnleased_tasks]
    exact Table.mem_update_other (p := fun t : Task => t.jobId = f.task.jobId && t.state.queued)
      (f := drainTask x.now reason) (fun _ => rfl)
      (failed_row hf (some "budget") (some reason) "failed" c.result.metadata _) (Bool.and_false _)

/-- A result within budget through the core. -/
theorem core_withinBudget (hfence : s.fencedTask taskId token = some f)
    (hcurrent : Current x.now f) (hfits : ¬ OverBudget f c) :
    completeTask url x taskId token c.result s =
      (do
        if ← read fun s => s.results.any fun r => r.taskId = taskId then
          return false
        else do
          attempt .integrityViolation <| Store.insertResult
            { id := x.uuid 0, taskId, finalUrl := c.finalUrl
              markdown := some c.markdown, markdownRef := none
              downloadedBytes := max 0 c.used
              artifactBytes := c.markdown.utf8ByteSize + max 0 c.screenshot }
          insertDiscovered url x f c.urls
          exec (settleCompleted x f c.result.metadata (max 0 c.used)
            (c.markdown.utf8ByteSize + max 0 c.screenshot))
          return true : Tx Bool) s := by
  have hused : actualBytes f.task c.result.metadata = max 0 c.used := by
    have hle : max 0 c.used ≤ f.task.byteBudgetReserved := not_lt.mp fun h => hfits (Or.inl h)
    exact min_eq_right hle
  unfold completeTask
  rw [bind_run_ok (activeLease_current hfence hcurrent)]
  dsimp only
  rw [hused]
  exact congrFun (if_neg hfits) s

end Core

/-! ## The worker's side -/

section Remote

variable {x : Txn} {role uri : String} {worker : Worker} {url : UrlIdentity} {f : FencedTask}
  {s : Store} {taskId token : Uuid} {c : Completion}

theorem hexDigest_of_lower {text : String} (h : WorkerApi.lowerHexDigest text = true) :
    WorkerApi.hexDigest text = true := by
  unfold WorkerApi.lowerHexDigest at h
  unfold WorkerApi.hexDigest
  simp only [Bool.and_eq_true, List.all_eq_true, Bool.or_eq_true] at h ⊢
  exact ⟨h.1, fun ch hch => Or.inl (h.2 ch hch)⟩

/-- What the worker protocol compares of a report. -/
def Fits (f : FencedTask) (c : Completion) : Prop :=
  max 0 c.used ≤ f.task.byteBudgetReserved ∧
    (c.markdown.utf8ByteSize : ℤ) ≤ f.task.artifactBudgetReserved

theorem fits_of_withinBudget (h : ¬ OverBudget f c) : Fits f c := by
  unfold OverBudget at h
  unfold Fits
  omega

theorem acceptsReport_iff (hdigest : ∀ u, WorkerApi.lowerHexDigest (url.sha256 u) = true)
    (howns : WorkerApi.ownsUri worker uri = true) :
    WorkerApi.acceptsReport worker f.task (c.artifact url uri) c.markdown.utf8ByteSize
      (max 0 c.used) = true ↔ Fits f c := by
  simp only [WorkerApi.acceptsReport, Completion.artifact, howns, hexDigest_of_lower (hdigest _),
    decide_true, Bool.true_and, Bool.and_eq_true, decide_eq_true_eq, Fits]
  constructor
  · rintro ⟨⟨-, hsize⟩, hused⟩
    exact ⟨hused, hsize⟩
  · rintro ⟨hused, hsize⟩
    exact ⟨⟨by omega, hsize⟩, hused⟩

/-- A report through the worker protocol, once its worker is known. -/
theorem remote_run (h : OwnLease role worker taskId token f s) (hcurrent : Current x.now f)
    (hdigest : ∀ u, WorkerApi.lowerHexDigest (url.sha256 u) = true)
    (howns : WorkerApi.ownsUri worker uri = true) :
    (¬ Fits f c →
      WorkerApi.complete x role taskId token (c.artifact url uri) (c.report url) s =
        .ok (false, s)) ∧
    (Fits f c →
      WorkerApi.complete x role taskId token (c.artifact url uri) (c.report url) s =
        (do
          if ← read fun s => s.results.any fun r => r.taskId = taskId then
            return false
          else do
            attempt .integrityViolation <| Store.insertResult
              { id := taskId, taskId, finalUrl := c.finalUrl
                markdown := none, markdownRef := some uri
                downloadedBytes := max 0 c.used, artifactBytes := c.markdown.utf8ByteSize }
            exec (WorkerApi.completeRows x f (max 0 c.used) c.markdown.utf8ByteSize)
            WorkerApi.insertLinks x f (c.urls.map (Completion.link url)) 0
            return true : Tx Bool) s) := by
  have haccepts := acceptsReport_iff (f := f) (c := c) hdigest howns
  have hsize : WorkerApi.castInt (-1) (c.artifact url uri).size s =
      .ok ((c.markdown.utf8ByteSize : ℤ), s) := rfl
  have hused : WorkerApi.castInt 0 (c.report url).downloadedBytes s = .ok (c.used, s) := rfl
  unfold WorkerApi.complete
  rw [bind_run_ok h.identified, read_bind_run, h.activeTask_eq, if_pos hcurrent]
  dsimp only
  rw [bind_run_ok hsize, bind_run_ok hused]
  constructor
  · intro hno
    have hreject := Bool.eq_false_iff.mpr fun haccept => hno (haccepts.mp haccept)
    rw [if_pos (by rw [hreject]; rfl), pure_run]
  · intro hfits
    rw [if_neg (by rw [haccepts.mpr hfits]; simp), if_neg (by simp [Completion.artifact])]
    rfl

/-- The settlement of the parent leaves the known URLs. -/
theorem known_completeRows (jobId : Uuid) (digest : String) (used size : ℤ) :
    known jobId digest (WorkerApi.completeRows x f used size s) = known jobId digest s := by
  show (s.tasks.update (fun t => t.id = f.task.id) (completedTask x.now)
    (key_completedTask x.now)).any _ = s.tasks.any _
  rw [Table.any_update]
  congr 1
  funext t
  split
  · rfl
  · rfl

theorem job?_completeRows (hf : Fenced s f) (used size : ℤ) :
    (WorkerApi.completeRows x f used size s).job? f.task.jobId =
      some (completedRow f.task used size f.job) :=
  Store.job?_eq_some.mpr
    ⟨Table.mem_update_row (key_completedRow f.task used size) hf.job_mem (decide_eq_true hf.job_id),
      hf.job_id⟩

end Remote

/-! ## When they agree -/

section Agreement

variable {x : Txn} {role uri : String} {worker : Worker} {url : UrlIdentity} {f : FencedTask}
  {s : Store} {taskId token : Uuid} {c : Completion}

/-- Both halves find the result of an earlier completion. -/
theorem agree_known (h : OwnLease role worker taskId token f s) (hcurrent : Current x.now f)
    (hdigest : ∀ u, WorkerApi.lowerHexDigest (url.sha256 u) = true)
    (howns : WorkerApi.ownsUri worker uri = true) (hfits : ¬ OverBudget f c)
    (hknown : (s.results.any fun r => r.taskId = taskId) = true) :
    CompletionsAgree url x role uri taskId token c s := by
  have hcore : completeTask url x taskId token c.result s = .ok (false, s) := by
    rw [core_withinBudget h.fenced hcurrent hfits, read_bind_run, if_pos hknown, pure_run]
  have hremote : WorkerApi.complete x role taskId token (c.artifact url uri) (c.report url) s =
      .ok (false, s) := by
    rw [(remote_run h hcurrent hdigest howns).2 (fits_of_withinBudget hfits), read_bind_run,
      if_pos hknown, pure_run]
  unfold CompletionsAgree
  rw [commit_of_ok hcore, commit_of_ok hremote]
  exact ⟨rfl, rfl⟩

/-- A result over budget ends the task in the core only. -/
theorem differ_overBudget (h : OwnLease role worker taskId token f s) (hcurrent : Current x.now f)
    (hdigest : ∀ u, WorkerApi.lowerHexDigest (url.sha256 u) = true)
    (howns : WorkerApi.ownsUri worker uri = true) (hover : OverBudget f c) :
    ¬ CompletionsAgree url x role uri taskId token c s := by
  obtain ⟨hf, hid, -⟩ := h.fences
  obtain ⟨s', hcore, t, ht, hstate⟩ := core_overBudget url h.fenced hcurrent hover
  obtain ⟨hreject, haccept⟩ := remote_run (c := c) h hcurrent hdigest howns
  -- A remote rejection leaves the lease, which the core ended.
  have hrejected : WorkerApi.complete x role taskId token (c.artifact url uri) (c.report url) s =
      .ok (false, s) → ¬ CompletionsAgree url x role uri taskId token c s := by
    intro hremote hagree
    unfold CompletionsAgree at hagree
    rw [commit_of_ok hcore, commit_of_ok hremote] at hagree
    have htask : s'.task? taskId = s.task? taskId := congrArg Prod.fst hagree.2
    rw [ht, Store.task?_eq_some.mpr ⟨hf.mem, hid⟩, Option.some.injEq] at htask
    rw [htask, hf.leased] at hstate
    cases hstate
  by_cases hfits : Fits f c
  · cases hknown : s.results.any fun r => r.taskId = taskId with
    | true =>
        refine hrejected ?_
        rw [haccept hfits, read_bind_run, if_pos hknown, pure_run]
    | false =>
        intro hagree
        have hreply := hagree.1
        rw [commit_of_ok hcore, commit, haccept hfits, read_bind_run,
          if_neg (by simp [hknown])] at hreply
        revert hreply
        split
        · rename_i b s'' hrun
          simp only [bind_ok, pure_ok] at hrun
          obtain ⟨-, -, -, -, -, -, -, -, -, rfl, -⟩ := hrun
          intro hreply
          cases hreply
        · intro hreply
          cases hreply
  · exact hrejected (hreject hfits)

/-- A new result: the children show by their priority, the screenshot by its size. -/
theorem agree_new_iff (h : OwnLease role worker taskId token f s) (hcurrent : Current x.now f)
    (hdepth : 0 ≤ f.task.depth) (hfresh : Fresh x taskId s)
    (hdigest : ∀ u, WorkerApi.lowerHexDigest (url.sha256 u) = true)
    (howns : WorkerApi.ownsUri worker uri = true) (hfits : ¬ OverBudget f c)
    (hnew : (s.results.any fun r => r.taskId = taskId) = false) :
    CompletionsAgree url x role uri taskId token c s ↔
      c.screenshot ≤ 0 ∧ ¬ Discovers url f c s := by
  obtain ⟨hf, hid, -⟩ := h.fences
  have hother : ∀ r ∈ s.results, r.taskId ≠ taskId := fun r hr heq => by
    simpa [heq] using Table.any_eq_false.mp hnew r hr
  -- The core.
  obtain ⟨R, hR⟩ := insertResult_run (r := {
    id := x.uuid 0, taskId, finalUrl := c.finalUrl, markdown := some c.markdown, markdownRef := none
    downloadedBytes := max 0 c.used
    artifactBytes := c.markdown.utf8ByteSize + max 0 c.screenshot })
    fun r hr => ⟨(hfresh.results r hr).1 0, hother r hr⟩
  obtain ⟨children₁, s₁, hgrows₁, hlinks₁, hsame₁, hnew₁⟩ := insertDiscovered_run
    (s := { s with results := R }) url c.urls hfresh.distinct ⟨f.job, hf.job_mem, hf.job_id⟩
    fun n _ => hfresh.tasks n
  have hcore : completeTask url x taskId token c.result s =
      .ok (true, settleCompleted x f c.result.metadata (max 0 c.used)
        (c.markdown.utf8ByteSize + max 0 c.screenshot) s₁) := by
    rw [core_withinBudget h.fenced hcurrent hfits, read_bind_run, if_neg (by simp [hnew]),
      attempt_bind_run_some hR, bind_run_ok hlinks₁]
    rfl
  -- The worker protocol.
  obtain ⟨R', hR'⟩ := insertResult_run (r := {
    id := taskId, taskId, finalUrl := c.finalUrl, markdown := none, markdownRef := some uri
    downloadedBytes := max 0 c.used, artifactBytes := c.markdown.utf8ByteSize })
    fun r hr => ⟨fun heq => hother r hr ((hfresh.results r hr).2 heq), hother r hr⟩
  let settled := WorkerApi.completeRows x f (max 0 c.used) c.markdown.utf8ByteSize
    { s with results := R' }
  have hdraws : Draws x 0 settled := by
    intro n _ t ht
    have hrow : t ∈ s.tasks.update (fun t => t.id = f.task.id) (completedTask x.now)
      (key_completedTask x.now) := ht
    obtain ⟨u, hu, rfl⟩ := Table.mem_update.mp hrow
    split
    · exact hfresh.tasks n u hu
    · exact hfresh.tasks n u hu
  have hf' : Fenced { s with results := R' } f :=
    ⟨⟨hf.mem, hf.leased, hf.token⟩, hf.job_mem, hf.job_id⟩
  obtain ⟨children₂, s₂, hgrows₂, hlinks₂, hsame₂, hnew₂⟩ := remote_insertLinks_run
    (s := settled) c.urls hdigest hfresh.distinct (job?_completeRows hf' _ _) hdraws
  have hremote : WorkerApi.complete x role taskId token (c.artifact url uri) (c.report url) s =
      .ok (true, s₂) := by
    rw [(remote_run h hcurrent hdigest howns).2 (fits_of_withinBudget hfits), read_bind_run,
      if_neg (by simp [hnew]), attempt_bind_run_some hR', exec_bind_run, bind_run_ok hlinks₂,
      pure_run]
  have hknown : ∀ original, newToWorker url f settled original ↔ newToWorker url f s original := by
    intro original
    unfold newToWorker
    rw [known_completeRows]
    rfl
  have hdiscovers : (children₁ ≠ [] ∨ children₂ ≠ []) ↔ Discovers url f c s := by
    rw [hnew₁, hnew₂]
    simp only [hknown]
    unfold Discovers
    constructor
    · rintro (⟨hroom, original, hmem, hlink⟩ | ⟨hroom, original, hmem, hlink⟩)
      · exact ⟨hroom, original, hmem, Or.inl hlink⟩
      · exact ⟨hroom, original, hmem, Or.inr hlink⟩
    · rintro ⟨hroom, original, hmem, hlink | hlink⟩
      · exact Or.inl ⟨hroom, original, hmem, hlink⟩
      · exact Or.inr ⟨hroom, original, hmem, hlink⟩
  unfold CompletionsAgree
  rw [commit_of_ok hcore, commit_of_ok hremote]
  simp only [true_and]
  by_cases hany : Discovers url f c s
  · refine iff_of_false (fun hview => ?_) fun hquiet => hquiet.2 hany
    have hchildren : children _ = children s₂ := congrArg (fun v => v.2.1) hview
    rw [children_settleCompleted] at hchildren
    have hsettled : children settled = children s := children_completeRows ..
    have hstart : children { s with results := R } = children settled := hsettled.symm
    have hpriority : f.task.depth + 1 ≠ 0 := by omega
    exact children_grows_ne hstart hgrows₁ hgrows₂ hpriority (hdiscovers.mpr hany) hchildren
  · have hnone := mt hdiscovers.mp hany
    simp only [ne_eq, not_or, not_not] at hnone
    rw [hsame₁ hnone.1, hsame₂ hnone.2, completed_view_iff hf]
    simp only [hany, not_false_eq_true, and_true]
    omega

/-- Both halves agree on the completion of a current lease exactly when
`AgreesOn` holds. -/
theorem completions_agree_iff (url : UrlIdentity) (x : Txn) (role uri : String)
    (taskId token : Uuid) (c : Completion) (s : Store) (worker : Worker) (f : FencedTask)
    (h : OwnLease role worker taskId token f s) (hcurrent : Current x.now f)
    (hdepth : 0 ≤ f.task.depth) (hfresh : Fresh x taskId s)
    (hdigest : ∀ u, WorkerApi.lowerHexDigest (url.sha256 u) = true)
    (howns : WorkerApi.ownsUri worker uri = true) :
    CompletionsAgree url x role uri taskId token c s ↔ c.AgreesOn url f s := by
  obtain ⟨-, hid, -⟩ := h.fences
  unfold Completion.AgreesOn
  by_cases hover : OverBudget f c
  · have hdiffer := differ_overBudget h hcurrent hdigest howns hover
    simp [hdiffer, hover]
  · cases hknown : s.results.any fun r => r.taskId = taskId with
    | true =>
        have hagree := agree_known (x := x) h hcurrent hdigest howns hover hknown
        obtain ⟨r, hr, htask⟩ := Table.any_eq_true.mp hknown
        refine iff_of_true hagree ⟨hover, Or.inl ⟨r, hr, ?_⟩⟩
        rw [hid]
        exact of_decide_eq_true htask
    | false =>
        rw [agree_new_iff h hcurrent hdepth hfresh hdigest howns hover hknown]
        have hno : ¬ ∃ r ∈ s.results, r.taskId = f.task.id := by
          rintro ⟨r, hr, htask⟩
          simpa [htask, hid] using Table.any_eq_false.mp hknown r hr
        simp [hover, hno]

end Agreement

/-! ## Samples -/

/-- The sample's identities, with the digest of its page for every other text. -/
def hashed : UrlIdentity :=
  { Sample.identity with
    sha256 := fun text =>
      if Sample.identity.sha256 text = "" then
        "a3e9598afcbb780b8762059736913dd2a711b19723fe6194f1a76c3fba9f9785"
      else Sample.identity.sha256 text }

/-- The seed of a crawl is leased to the enrolled worker under token 11. -/
def leasedHashed : Store := run hashed {} [Sample.enrol, Sample.submit, Sample.remoteClaim]

/-- A page without links, and one that links to another page of its origin. -/
def leaf : Completion :=
  { finalUrl := "https://example.com", markdown := "A page.", used := 100, screenshot := 0
    urls := ["https://example.com"] }

def hub : Completion := { leaf with urls := ["https://example.com/a"] }

theorem hashed_digest (text : String) : WorkerApi.lowerHexDigest (hashed.sha256 text) = true := by
  unfold hashed
  dsimp only
  split
  · decide
  · rename_i hknown
    revert hknown
    dsimp only [Sample.identity]
    split_ifs
    · intro _
      decide
    · intro _
      decide
    · intro hknown
      exact absurd rfl hknown

theorem leasedHashed_fresh : Fresh reportTxn 2 leasedHashed where
  distinct := by
    intro m n h
    exact Nat.add_left_cancel h
  tasks := by
    intro n t ht
    have hids : ∀ t ∈ leasedHashed.tasks, t.id = 2 := by decide
    rw [hids t ht]
    show 2 ≠ 21 + n
    omega
  results := by
    intro r hr
    have hnone : ∀ r ∈ leasedHashed.results, False := by decide
    exact absurd hr (hnone r)

theorem completions_agree_leaf :
    CompletionsAgree hashed reportTxn "worker_edge" "s3://crawl/edge/2.md" 2 11 leaf
      leasedHashed := by
  have hlease : ∃ worker f, OwnLease "worker_edge" worker 2 11 f leasedHashed ∧
      Current reportTxn.now f ∧ 0 ≤ f.task.depth ∧
      WorkerApi.ownsUri worker "s3://crawl/edge/2.md" = true ∧
      leaf.AgreesOn hashed f leasedHashed := by
    refine ⟨_, _, ⟨rfl, rfl, rfl⟩, ?_, ?_, ?_, ?_⟩
    · decide +kernel
    · decide +kernel
    · decide +kernel
    · refine ⟨?_, Or.inr ⟨le_refl 0, ?_⟩⟩
      · decide +kernel
      · rintro ⟨-, original, hmem, ⟨-, hnew⟩ | ⟨-, hnew⟩⟩
        · rw [List.mem_singleton.mp hmem] at hnew
          revert hnew
          decide
        · rw [List.mem_singleton.mp hmem] at hnew
          revert hnew
          decide
  obtain ⟨worker, f, hlease, hcurrent, hdepth, howns, hagrees⟩ := hlease
  exact (completions_agree_iff hashed reportTxn "worker_edge" "s3://crawl/edge/2.md" 2 11 leaf
    leasedHashed worker f hlease hcurrent hdepth leasedHashed_fresh hashed_digest howns).mpr hagrees

/-- The child of a page has the priority of its depth in the core, and the
default in the worker protocol. -/
theorem completions_differ_hub :
    ¬ CompletionsAgree hashed reportTxn "worker_edge" "s3://crawl/edge/2.md" 2 11 hub
      leasedHashed := by
  intro h
  have hpriorities := congrArg (fun v => v.2.1.map Child.priority) h.2
  revert hpriorities
  decide +kernel

example : leasedHashed.tasks.rows.map Task.state = [.leased] := by decide +kernel

end Protocol

end CrawlTrove
