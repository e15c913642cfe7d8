import CrawlTrove.Artifacts.Like
import CrawlTrove.Relational.Execution
import CrawlTrove.Store.System

/-!
# The artifacts of a worker

A remote worker reports the reference of its artifact; `complete` and the
trigger on `crawl_results` test it against a pattern built from the worker's
bucket and prefix. Underscores are allowed in worker ids, so the pattern of one
worker can reach into the directory of another.
-/

namespace CrawlTrove.WorkerApi

open Relational Transaction

/-- `_validate_result_artifact`, before a result with this reference is stored. -/
def validateResultArtifact (taskId : Uuid) (markdownRef : Option String) : Tx PUnit := do
  match markdownRef with
  | none => return ⟨⟩
  | some uri =>
      match ← read fun s => (s.task? taskId).bind fun t =>
          s.workers.find? fun w => t.leaseOwner = some w.id with
      | none => raise (.insufficientPrivilege
          "artifact reference is outside the enrolled worker bucket and prefix")
      | some worker =>
          if ownsUri worker uri then return ⟨⟩
          else raise (.insufficientPrivilege
            "artifact reference is outside the enrolled worker bucket and prefix")

/-- `WORKER_ID`. -/
def validWorkerId (id : String) : Bool :=
  match id.toList with
  | [] => false
  | c :: rest =>
      c.isAlphanum && decide (rest.length ≤ 63) &&
        rest.all fun d => d.isAlphanum || d = '_' || d = '-'

/-- The prefix an enrolment gives the worker. -/
def artifactPrefix (id : String) : String := "workers/" ++ id ++ "/"

/-- What lies below a prefix of a bucket. -/
def Below (bucket directory uri : String) : Prop :=
  ("s3://" ++ bucket ++ "/" ++ directory).toList <+: uri.toList

instance (bucket directory uri : String) : Decidable (Below bucket directory uri) :=
  inferInstanceAs (Decidable (_ <+: _))

/-- Some completion of a task by this worker stores the reference. -/
def Completes (worker : Worker) (uri : String) : Prop :=
  ∃ x taskId token artifact report s s', worker ∈ s.workers ∧ artifact.uri = some uri ∧
    complete x worker.dbRole taskId token artifact report s = .ok (true, s')

/-- The trigger lets the reference pass on some task leased to this worker. -/
def TriggerAdmits (worker : Worker) (uri : String) : Prop :=
  ∃ s s' : Store, ∃ task ∈ s.tasks, worker ∈ s.workers ∧ task.leaseOwner = some worker.id ∧
    validateResultArtifact task.id (some uri) s = .ok (⟨⟩, s')

theorem worker_eq_of_id {T : Table Worker} {a b : Worker} (ha : a ∈ T) (hb : b ∈ T)
    (h : a.id = b.id) : a = b :=
  Table.eq_of_clash ha hb (by simp [Clashes, Keyed.clash, Keyed.key, h])

theorem worker_eq_of_role {T : Table Worker} {a b : Worker} (ha : a ∈ T) (hb : b ∈ T)
    (h : a.dbRole = b.dbRole) : a = b :=
  Table.eq_of_clash ha hb (by simp [Clashes, Keyed.clash, Keyed.key, h])

/-- The identity of a role is the worker enrolled with it. -/
theorem identity_eq {role : String} {draining : Bool} {s s' : Store} {w worker : Worker}
    (hworker : worker ∈ s.workers) (hrole : worker.dbRole = role)
    (h : identity role draining s = .ok (w, s')) : w = worker := by
  simp only [identity, bind_ok, read_ok] at h
  obtain ⟨found, _, ⟨hfound, rfl⟩, h⟩ := h
  cases found with
  | none => simp at h
  | some v =>
      obtain ⟨rfl, -⟩ := pure_ok.mp h
      obtain ⟨hmem, hp⟩ := Table.find?_eq_some hfound
      simp only [Bool.and_eq_true, decide_eq_true_eq] at hp
      exact worker_eq_of_role hmem hworker (hp.1.1.trans hrole.symm)

/-- An accepted completion has passed the test on its reference. -/
theorem ownsUri_of_complete {x : Txn} {taskId token : Uuid} {artifact : ArtifactRef}
    {report : Report} {s s' : Store} {worker : Worker} {uri : String}
    (hworker : worker ∈ s.workers) (huri : artifact.uri = some uri)
    (h : complete x worker.dbRole taskId token artifact report s = .ok (true, s')) :
    ownsUri worker uri = true := by
  simp only [complete, bind_ok, read_ok] at h
  obtain ⟨w, s₁, h₁, found, _, ⟨-, rfl⟩, h⟩ := h
  obtain rfl := identity_eq hworker rfl h₁
  cases found with
  | none => simp at h
  | some f =>
      simp only [bind_ok] at h
      obtain ⟨size, s₂, -, reported, s₃, -, h⟩ := h
      cases haccepts : acceptsReport w f.task artifact size (max 0 reported) with
      | false => simp [haccepts] at h
      | true =>
          simp only [acceptsReport, huri, Bool.and_eq_true] at haccepts
          exact haccepts.1.1.1.1.1

/-- A job in progress. -/
def runningJob : Job where
  id := 1
  state := .running
  config := Sample.config
  maxPages := 10
  maxBytes := 1000
  maxArtifactBytes := 1000
  discoveredCount := 1
  deadlineAt := seconds 60

/-- Its task, leased to the worker under token 3. -/
def taskOf (worker : Worker) : Task where
  id := 2
  jobId := 1
  originalUrl := "https://example.com"
  normalizedUrl := "https://example.com"
  urlHash := "100680ad546ce6a577f42f52df33b4cfdca756859e664b8d7de329b150d09ce9"
  originKey := "https://example.com:443"
  depth := 0
  discoverySeq := 0
  state := .leased
  availableAt := 0
  attemptCount := 1
  maxAttempts := 3
  requiredCapabilities := ["http"]
  leaseOwner := some worker.id
  leaseToken := some 3
  leaseExpiresAt := some (seconds 60)

def leasedTo (worker : Worker) : Store where
  jobs := ⟨[runningJob], List.pairwise_singleton ..⟩
  tasks := ⟨[taskOf worker], List.pairwise_singleton ..⟩
  workers := ⟨[worker], List.pairwise_singleton ..⟩

/-- The report of an empty page under the reference. -/
def emptyPage (uri : String) : ArtifactRef where
  uri := some uri
  sha256 := some "e3b0c44298fc1c149afbf4c8996fb92427ae41e4649b934ca495991b7852b855"
  mediaType := some "text/markdown"
  size := .value (some 0) (some 0)

theorem identity_leasedTo {worker : Worker} (hactive : worker.state = .active)
    (hprotocol : worker.protocolVersion = 1) :
    identity worker.dbRole false (leasedTo worker) = .ok (worker, leasedTo worker) := by
  simp [identity, leasedTo, Table.find?, hactive, hprotocol]

theorem activeTask_leasedTo (worker : Worker) :
    activeTask (seconds 1) worker 2 3 (leasedTo worker) =
      some ⟨taskOf worker, runningJob, 3⟩ := by
  simp [activeTask, ownedTask, leasedTo, taskOf, runningJob, Table.find?, Store.job?, seconds]

theorem acceptsReport_emptyPage {worker : Worker} {uri : String}
    (howns : ownsUri worker uri = true) :
    acceptsReport worker (taskOf worker) (emptyPage uri) 0 0 = true := by
  have hdigest : hexDigest
      "e3b0c44298fc1c149afbf4c8996fb92427ae41e4649b934ca495991b7852b855" = true := by
    decide
  simp [acceptsReport, emptyPage, howns, hdigest, taskOf]

/-- A reference that passes the test is stored when the rest of the report is
in order. -/
theorem complete_leasedTo {worker : Worker} (hactive : worker.state = .active)
    (hprotocol : worker.protocolVersion = 1) {uri : String} (howns : ownsUri worker uri = true) :
    ∃ s', complete { now := seconds 1, uuid := id } worker.dbRole 2 3 (emptyPage uri) {}
      (leasedTo worker) = .ok (true, s') := by
  have hsize : castInt (-1) (emptyPage uri).size (leasedTo worker) = .ok (0, leasedTo worker) :=
    rfl
  have hreported : castInt 0 ({} : Report).downloadedBytes (leasedTo worker) =
      .ok (0, leasedTo worker) := rfl
  simp only [complete, bind_run_ok (identity_leasedTo hactive hprotocol), read_bind_run,
    activeTask_leasedTo, bind_run_ok hsize, bind_run_ok hreported, max_self,
    acceptsReport_emptyPage howns]
  exact ⟨_, rfl⟩

theorem completes_iff {worker : Worker} (hactive : worker.state = .active)
    (hprotocol : worker.protocolVersion = 1) (uri : String) :
    Completes worker uri ↔ ownsUri worker uri = true := by
  constructor
  · rintro ⟨x, taskId, token, artifact, report, s, s', hworker, huri, h⟩
    exact ownsUri_of_complete hworker huri h
  · intro howns
    obtain ⟨s', h⟩ := complete_leasedTo hactive hprotocol howns
    exact ⟨_, 2, 3, emptyPage uri, {}, leasedTo worker, s', List.mem_singleton_self worker, rfl, h⟩

theorem triggerAdmits_iff (worker : Worker) (uri : String) :
    TriggerAdmits worker uri ↔ ownsUri worker uri = true := by
  constructor
  · rintro ⟨s, s', task, htask, hworker, howner, h⟩
    simp only [validateResultArtifact, bind_ok, read_ok] at h
    obtain ⟨found, _, ⟨hfound, rfl⟩, h⟩ := h
    rw [Store.task?_eq_some.mpr ⟨htask, rfl⟩] at hfound
    cases found with
    | none => simp at h
    | some w =>
        obtain ⟨hw, hid⟩ := Table.find?_eq_some hfound
        obtain rfl : w = worker := by
          refine worker_eq_of_id hw hworker ?_
          simpa [howner, eq_comm] using hid
        cases howns : ownsUri w uri with
        | true => rfl
        | false => simp [howns] at h
  · intro howns
    refine ⟨leasedTo worker, leasedTo worker, taskOf worker, List.mem_singleton_self _,
      List.mem_singleton_self _, rfl, ?_⟩
    have hfound : ((leasedTo worker).task? (taskOf worker).id).bind (fun t =>
        (leasedTo worker).workers.find? fun w => t.leaseOwner = some w.id) = some worker := by
      simp [leasedTo, Store.task?, taskOf, Table.find?]
    simp only [validateResultArtifact, read_bind_run, hfound, howns]
    rfl

/-- `complete` or the trigger accepts the reference as one of this worker. -/
def Accepts (worker : Worker) (uri : String) : Prop :=
  Completes worker uri ∨ TriggerAdmits worker uri

theorem accepts_iff {worker : Worker} (hactive : worker.state = .active)
    (hprotocol : worker.protocolVersion = 1) (uri : String) :
    Accepts worker uri ↔ ownsUri worker uri = true := by
  rw [Accepts, completes_iff hactive hprotocol, triggerAdmits_iff, or_self]

theorem ownsUri_iff (worker : Worker) (uri : String) :
    ownsUri worker uri = true ↔
      sqlLike (("s3://" ++ worker.artifactBucket ++ "/" ++ worker.artifactPrefix).toList ++ ['%'])
        uri.toList = true := by
  rw [ownsUri, String.toList_append (s := _ ++ worker.artifactPrefix)]
  rfl

theorem literal_iff (bucket directory : String) :
    LikeLiteral ("s3://" ++ bucket ++ "/" ++ directory).toList ↔
      LikeLiteral bucket.toList ∧ LikeLiteral directory.toList := by
  have hscheme : LikeLiteral "s3://".toList := by simp [LikeLiteral, isLikeMeta]
  have hslash : LikeLiteral "/".toList := by simp [LikeLiteral, isLikeMeta]
  simp only [String.toList_append, likeLiteral_append, hscheme, hslash, true_and, and_true]

/-- The references a worker may store lie below its own prefix exactly when its
bucket and its prefix contain no wildcard and no backslash. -/
theorem confined_iff {worker : Worker} (hactive : worker.state = .active)
    (hprotocol : worker.protocolVersion = 1) :
    (∀ uri, Accepts worker uri → Below worker.artifactBucket worker.artifactPrefix uri) ↔
      LikeLiteral worker.artifactBucket.toList ∧ LikeLiteral worker.artifactPrefix.toList := by
  rw [← literal_iff, ← sqlLike_prefix_iff]
  constructor
  · intro h text htext
    have howns : ownsUri worker (String.ofList text) = true :=
      (ownsUri_iff worker _).mpr (by rwa [String.toList_ofList])
    have := h _ ((accepts_iff hactive hprotocol _).mpr howns)
    rwa [Below, String.toList_ofList] at this
  · intro h uri huri
    exact h _ ((ownsUri_iff worker uri).mp ((accepts_iff hactive hprotocol uri).mp huri))

/-! ## Two workers of one bucket -/

theorem artifactPrefix_toList (id : String) :
    (artifactPrefix id).toList = "workers/".toList ++ (id.toList ++ ['/']) := by
  simp [artifactPrefix]

theorem slash_not_mem {id : String} (h : validWorkerId id = true) : '/' ∉ id.toList := by
  intro hmem
  unfold validWorkerId at h
  cases hid : id.toList with
  | nil => simp [hid] at hmem
  | cons c rest =>
      rw [hid] at h hmem
      simp only [Bool.and_eq_true, List.all_eq_true] at h
      rcases List.mem_cons.mp hmem with rfl | hmem
      · exact absurd h.1.1 (by decide)
      · exact absurd (h.2 _ hmem) (by decide)

theorem eq_of_prefix_concat {α : Type*} {a b : List α} {c : α} (hb : c ∉ b)
    (h : a ++ [c] <+: b ++ [c]) : a = b := by
  rcases List.prefix_concat_iff.mp h with h | h
  · exact List.append_cancel_right h
  · exact absurd (h.subset (List.mem_append_right a (List.mem_singleton_self c))) hb

/-- The directories of two ids do not meet. -/
theorem eq_of_below {bucket a b uri : String} (ha : validWorkerId a = true)
    (hb : validWorkerId b = true) (hbelow : Below bucket (artifactPrefix a) uri)
    (hbelow' : Below bucket (artifactPrefix b) uri) : a = b := by
  simp only [Below, String.toList_append (t := artifactPrefix _), artifactPrefix_toList]
    at hbelow hbelow'
  rcases List.prefix_or_prefix_of_prefix hbelow hbelow' with h | h
  · rw [List.prefix_append_right_inj, List.prefix_append_right_inj] at h
    exact String.toList_injective (eq_of_prefix_concat (slash_not_mem hb) h)
  · rw [List.prefix_append_right_inj, List.prefix_append_right_inj] at h
    exact (String.toList_injective (eq_of_prefix_concat (slash_not_mem ha) h)).symm

/-- What a worker may store lies below its own prefix and, when its prefix is
the one of its id, in no other worker's directory, exactly when its bucket and
its prefix contain no wildcard and no backslash. -/
theorem artifacts_confined_iff {worker : Worker} (hactive : worker.state = .active)
    (hprotocol : worker.protocolVersion = 1) :
    ((∀ uri, Accepts worker uri → Below worker.artifactBucket worker.artifactPrefix uri) ∧
      (validWorkerId worker.id = true → worker.artifactPrefix = artifactPrefix worker.id →
        ∀ other uri, validWorkerId other = true → other ≠ worker.id →
          Below worker.artifactBucket (artifactPrefix other) uri → ¬ Accepts worker uri)) ↔
      LikeLiteral worker.artifactBucket.toList ∧ LikeLiteral worker.artifactPrefix.toList := by
  rw [← confined_iff hactive hprotocol]
  constructor
  · rintro ⟨hconfined, -⟩
    exact hconfined
  · intro hconfined
    refine ⟨hconfined, ?_⟩
    intro hid hdirectory other uri hother hne hbelow haccepts
    have hown := hconfined uri haccepts
    rw [hdirectory] at hown
    exact hne (eq_of_below hother hid hbelow hown)

/-- The worker enrolled under the id. -/
def workerNamed (id : String) : Worker where
  id
  dbRole := "ct_worker_" ++ id
  capabilities := ["http"]
  protocolVersion := 1
  state := .active
  artifactBucket := "crawl"
  artifactPrefix := artifactPrefix id

theorem artifacts_confined_edge :
    ((∀ uri, Accepts (workerNamed "edge") uri → Below "crawl" (artifactPrefix "edge") uri) ∧
      (validWorkerId "edge" = true → artifactPrefix "edge" = artifactPrefix "edge" →
        ∀ other uri, validWorkerId other = true → other ≠ "edge" →
          Below "crawl" (artifactPrefix other) uri → ¬ Accepts (workerNamed "edge") uri)) ↔
      LikeLiteral "crawl".toList ∧ LikeLiteral (artifactPrefix "edge").toList :=
  @artifacts_confined_iff (workerNamed "edge") rfl rfl

/-- The worker `a_b` may store what lies in the directory of `axb`. -/
theorem underscore_reaches :
    validWorkerId "a_b" = true ∧ validWorkerId "axb" = true ∧ "axb" ≠ "a_b" ∧
      Below "crawl" (artifactPrefix "axb") "s3://crawl/workers/axb/page.md" ∧
      ¬ Below "crawl" (artifactPrefix "a_b") "s3://crawl/workers/axb/page.md" ∧
      Accepts (workerNamed "a_b") "s3://crawl/workers/axb/page.md" := by
  refine ⟨by decide, by decide, by decide, by decide, by decide, ?_⟩
  refine (accepts_iff rfl rfl _).mpr ?_
  simp [ownsUri, workerNamed, artifactPrefix, sqlLike]

example : ownsUri (workerNamed "edge") "s3://crawl/workers/axb/page.md" = false := by decide +kernel

end CrawlTrove.WorkerApi
