import CrawlTrove.Relational.Execution
import CrawlTrove.Origins.Touches

/-!
# One claim, written twice

`claim_task` and `worker_api.claim` make the same decision in Python and in
PL/pgSQL. Both take the first claimable task in order; from there on they part
on cooling and due origins, on circuits that may be probed, on spent budgets
and on the cap of a document. `claims_agree_iff` says exactly when they agree.
-/

namespace CrawlTrove

open Relational Transaction

open Origins (origin?_eq_some origin_eq_of_key)

namespace Protocol

/-! ## The task both claims choose -/

/-- The task a claim locks, and its job. -/
def candidate (x : Txn) (capabilities : List String) (s : Store) : Option (Task × Job) :=
  (firstInOrder (s.tasks.select (s.claimable x capabilities))).bind fun t =>
    (s.job? t.jobId).map fun j => (t, j)

theorem firstInOrder_mem {ts : List Task} {t : Task} (h : firstInOrder ts = some t) : t ∈ ts := by
  induction ts generalizing t with
  | nil => cases h
  | cons u us ih =>
      rw [firstInOrder] at h
      cases hrest : firstInOrder us with
      | none =>
          rw [hrest] at h
          exact List.mem_cons.mpr (Or.inl (Option.some.inj h).symm)
      | some v =>
          simp only [hrest] at h
          split at h
          · obtain rfl := Option.some.inj h
            exact List.mem_cons_of_mem _ (ih hrest)
          · exact List.mem_cons.mpr (Or.inl (Option.some.inj h).symm)

/-- What is known of the task and the job of a claim. -/
structure Candidate (x : Txn) (s : Store) (t : Task) (j : Job) : Prop where
  task : t ∈ s.tasks
  job : s.job? t.jobId = some j
  queued : t.state.queued = true
  due : t.availableAt ≤ x.now
  uncancelled : j.cancelRequestedAt = none
  timely : x.now < j.deadlineAt

theorem candidate_eq_some {x : Txn} {capabilities : List String} {s : Store} {t : Task} {j : Job}
    (h : candidate x capabilities s = some (t, j)) : Candidate x s t j := by
  obtain ⟨u, hu, h⟩ := Option.bind_eq_some_iff.mp h
  obtain ⟨k, hk, h⟩ := Option.map_eq_some_iff.mp h
  obtain ⟨rfl, rfl⟩ := Prod.mk.inj h
  obtain ⟨hmem, hclaim⟩ := Table.mem_select.mp (firstInOrder_mem hu)
  simp only [Store.claimable, hk, Bool.and_eq_true, Bool.or_eq_true, decide_eq_true_eq,
    Option.isNone_iff_eq_none] at hclaim
  obtain ⟨⟨⟨⟨hstate, hdue⟩, -⟩, -⟩, huncancelled, htimely⟩ := hclaim
  refine ⟨hmem, hk, ?_, hdue, huncancelled, htimely⟩
  rcases hstate with hstate | hstate <;> simp [hstate, TaskState.queued]

/-- `claim_task`, once the candidate is known. -/
theorem claimTask_run (x : Txn) (workerId : String) (capabilities : List String) (s : Store) :
    claimTask x workerId capabilities s =
      match candidate x capabilities s with
      | none => .ok (none, s)
      | some (t, j) => claimLocked x workerId t j s := by
  unfold claimTask
  rw [read_bind_run]
  cases hfirst : firstInOrder (s.tasks.select (s.claimable x capabilities)) with
  | none => simp [candidate, hfirst]
  | some t =>
      simp only [read_bind_run]
      cases hjob : s.job? t.jobId with
      | none => simp [candidate, hfirst, hjob]
      | some j =>
          have hcandidate : candidate x capabilities s = some (t, j) := by
            simp [candidate, hfirst, hjob]
          have hc := candidate_eq_some hcandidate
          have htimely := not_le.mpr hc.timely
          simp [hcandidate, hc.uncancelled, htimely]

/-- `worker_api.claim`, once the worker is identified. -/
theorem remote_claim_run {x : Txn} {role : String} {capabilities : List String} {s : Store}
    {worker : Worker} (hworker : WorkerApi.identity role false s = .ok (worker, s))
    (hcapable : capabilities.all worker.capabilities.contains = true) :
    WorkerApi.claim x role capabilities s =
      match candidate x capabilities s with
      | none => .ok (none, s)
      | some (t, j) =>
          match s.origin? t.originKey with
          | none => .ok (none, s)
          | some o => WorkerApi.claimLocked x worker t j o s := by
  unfold WorkerApi.claim
  rw [bind_run_ok hworker]
  simp only [hcapable, Bool.not_true, Bool.false_eq_true, if_false, read_bind_run]
  cases hfirst : firstInOrder (s.tasks.select (s.claimable x capabilities)) with
  | none => simp [candidate, hfirst]
  | some t =>
      simp only [read_bind_run]
      cases hjob : s.job? t.jobId with
      | none => simp [candidate, hfirst, hjob]
      | some j =>
          simp only [candidate, hfirst, hjob, read_bind_run, Option.bind_some, Option.map_some]
          cases s.origin? t.originKey <;> rfl

/-! ## Granting -/

/-- An insert of the grant clashes with a row already there: an attempt of
this number or uuid, or a permit of the task. -/
def clashing (x : Txn) (task : Task) (s : Store) : Bool :=
  (s.attempts.any fun a =>
    a.id = x.uuid 1 || (a.taskId = task.id && a.attemptNumber = task.attemptCount + 1)) ||
  s.originLeases.any fun l => l.taskId = task.id

/-- What a claim reserves: the bytes, the artifacts and the attempt number of
the task's row. -/
def reservation (s : Store) (taskId : Uuid) : Option (ℤ × ℤ × ℤ) :=
  (s.task? taskId).map fun t => (t.byteBudgetReserved, t.artifactBudgetReserved, t.attemptCount)

/-- Both claims insert the same attempt and permit, in either order. -/
def attemptClash (x : Txn) (task : Task) (s : Store) : Prop :=
  ∃ a ∈ s.attempts,
    a.id = x.uuid 1 ∨ (a.taskId = task.id ∧ a.attemptNumber = task.attemptCount + 1)

def permitClash (task : Task) (s : Store) : Prop := ∃ l ∈ s.originLeases, l.taskId = task.id

theorem clashing_eq_true {x : Txn} {task : Task} {s : Store} :
    clashing x task s = true ↔ attemptClash x task s ∨ permitClash task s := by
  simp [clashing, attemptClash, permitClash, Table.any_eq_true]

theorem attempt_clashes {a b : Attempt} :
    Clashes a b = true ↔
      a.id = b.id ∨ (a.taskId = b.taskId ∧ a.attemptNumber = b.attemptNumber) := by
  show (decide (a.id = b.id) ||
    decide ((a.taskId, a.attemptNumber) = (b.taskId, b.attemptNumber))) = true ↔ _
  simp

theorem permit_clashes {l l' : OriginLease} : Clashes l l' = true ↔ l.taskId = l'.taskId := by
  show decide (l.taskId = l'.taskId) = true ↔ _
  simp

/-- The attempt a claim inserts clashes with one already there. -/
theorem insert_attempt_eq_none {x : Txn} {task : Task} (workerId : String) (bytes artifacts : ℤ)
    {s : Store} :
    s.attempts.insert?
        (workerAttempt (x.uuid 1) task (task.attemptCount + 1) workerId bytes artifacts) = none ↔
      attemptClash x task s := by
  rw [Table.insert?_eq_none]
  simp only [attempt_clashes]
  rfl

theorem insert_permit_eq_none {task : Task} (now : Time) (token : Uuid) {s : Store} :
    s.originLeases.insert? (originLease now task token) = none ↔ permitClash task s := by
  rw [Table.insert?_eq_none]
  simp only [permit_clashes]
  rfl

/-- Without a clash both inserts go through, and the other way round. -/
theorem clashing_eq_false {x : Txn} {task : Task} (workerId : String) (bytes artifacts : ℤ)
    {s : Store} :
    clashing x task s = false ↔
      (∃ T, s.attempts.insert? (workerAttempt (x.uuid 1) task (task.attemptCount + 1) workerId
        bytes artifacts) = some T) ∧
      ∃ U, s.originLeases.insert? (originLease x.now task (x.uuid 0)) = some U := by
  rw [← Bool.not_eq_true, clashing_eq_true, not_or,
    ← insert_attempt_eq_none workerId bytes artifacts, ← insert_permit_eq_none x.now (x.uuid 0)]
  exact and_congr Option.ne_none_iff_exists' Option.ne_none_iff_exists'

/-- The row of a leased task. -/
theorem reservation_of_lease {s s' : Store} {task : Task} (f : Task → Task)
    (hf : ∀ r, Keyed.key (f r) = Keyed.key r) (ht : task ∈ s.tasks)
    (h : s'.tasks = s.tasks.update (fun t => t.id = task.id) f hf) :
    reservation s' task.id = some
      ((f task).byteBudgetReserved, (f task).artifactBudgetReserved, (f task).attemptCount) := by
  have hid : (f task).id = task.id := congrArg Prod.fst (hf task)
  have hmem : f task ∈ s'.tasks := by
    rw [h]
    exact (@Table.mem_update _ _ _ f s.tasks hf (f task)).mpr ⟨task, ht, by simp⟩
  have hfound : s'.task? task.id = some (f task) := by
    refine Table.find?_eq_of_mem hmem (by simp [hid]) fun u hu hp => ?_
    exact task_eq_of_id hu hmem (by simpa [hid] using hp)
  simp [reservation, hfound]

/-- A grant raises on a clash and reserves what it is given otherwise. -/
def Grants (clash : Bool) (task : Task) (bytes artifacts : ℤ)
    (r : Except DbError (ClaimedTask × Store)) : Prop :=
  (clash = true ∧ ∃ e, r = .error e) ∨
    clash = false ∧ ∃ g s', r = .ok (g, s') ∧ g.id = task.id ∧
      reservation s' task.id = some (bytes, artifacts, task.attemptCount + 1)

theorem grants_of {clash : Bool} {task : Task} {bytes artifacts : ℤ}
    {r : Except DbError (ClaimedTask × Store)}
    (hok : ∀ g s', r = .ok (g, s') → clash = false ∧ g.id = task.id ∧
      reservation s' task.id = some (bytes, artifacts, task.attemptCount + 1))
    (hfree : clash = false → ∃ g s', r = .ok (g, s')) : Grants clash task bytes artifacts r := by
  cases r with
  | error e =>
      cases clash with
      | true => exact Or.inl ⟨rfl, e, rfl⟩
      | false =>
          obtain ⟨g, s', hp⟩ := hfree rfl
          cases hp
  | ok p =>
      obtain ⟨hclash, hid, hrow⟩ := hok p.1 p.2 rfl
      exact Or.inr ⟨hclash, p.1, p.2, rfl, hid, hrow⟩

theorem grantLease_grants (x : Txn) (workerId : String) {task : Task} (job : Job)
    (bytes artifacts : ℤ) {s : Store} (ht : task ∈ s.tasks) :
    Grants (clashing x task s) task bytes artifacts
      (grantLease x workerId task job bytes artifacts s) := by
  refine grants_of (fun g s' h => ?_) fun hclash => ?_
  · simp only [grantLease, bind_ok, exec_ok, attempt_ok, pure_ok] at h
    obtain ⟨_, _, rfl, _, _, rfl, _, _, rfl, _, s₁, h₁, _, s₂, h₂, _, _, rfl, rfl, rfl⟩ := h
    obtain ⟨T, hT, rfl⟩ := Option.map_eq_some_iff.mp h₁
    obtain ⟨U, hU, rfl⟩ := Option.map_eq_some_iff.mp h₂
    refine ⟨(clashing_eq_false workerId bytes artifacts).mpr ⟨⟨T, hT⟩, U, hU⟩, rfl, ?_⟩
    exact reservation_of_lease (fun t =>
      { t.lease x.now workerId (x.uuid 0) bytes artifacts with
        attemptCount := t.attemptCount + 1, startedAt := some (t.startedAt.getD x.now) })
      (fun _ => rfl) ht rfl
  · obtain ⟨⟨T, hT⟩, U, hU⟩ := (clashing_eq_false workerId bytes artifacts).mp hclash
    apply Exists.intro
    apply Exists.intro
    simp only [grantLease, bind_ok, exec_ok, attempt_ok, pure_ok]
    exact ⟨⟨⟩, _, rfl, ⟨⟩, _, rfl, ⟨⟩, _, rfl, ⟨⟩, _, Option.map_eq_some_iff.mpr ⟨T, hT, rfl⟩,
      ⟨⟩, _, Option.map_eq_some_iff.mpr ⟨U, hU, rfl⟩, ⟨⟩, _, rfl, rfl, rfl⟩

theorem remote_grantLease_grants (x : Txn) (worker : Worker) {task : Task} (job : Job)
    (bytes artifacts : ℤ) {s : Store} (ht : task ∈ s.tasks) :
    Grants (clashing x task s) task bytes artifacts
      (WorkerApi.grantLease x worker task job bytes artifacts s) := by
  refine grants_of (fun g s' h => ?_) fun hclash => ?_
  · simp only [WorkerApi.grantLease, bind_ok, exec_ok, attempt_ok, pure_ok] at h
    obtain ⟨_, _, rfl, _, _, rfl, _, _, rfl, _, s₁, h₁, _, _, rfl, _, s₂, h₂, rfl, rfl⟩ := h
    obtain ⟨U, hU, rfl⟩ := Option.map_eq_some_iff.mp h₁
    obtain ⟨T, hT, rfl⟩ := Option.map_eq_some_iff.mp h₂
    refine ⟨(clashing_eq_false worker.id bytes artifacts).mpr ⟨⟨T, hT⟩, U, hU⟩, rfl, ?_⟩
    exact reservation_of_lease (fun t =>
      { t.lease x.now worker.id (x.uuid 0) bytes artifacts with
        attemptCount := t.attemptCount + 1 }) (fun _ => rfl) ht rfl
  · obtain ⟨⟨T, hT⟩, U, hU⟩ := (clashing_eq_false worker.id bytes artifacts).mp hclash
    apply Exists.intro
    apply Exists.intro
    simp only [WorkerApi.grantLease, bind_ok, exec_ok, attempt_ok, pure_ok]
    exact ⟨⟨⟩, _, rfl, ⟨⟩, _, rfl, ⟨⟩, _, rfl, ⟨⟩, _, Option.map_eq_some_iff.mpr ⟨U, hU, rfl⟩,
      ⟨⟩, _, rfl, ⟨⟩, _, Option.map_eq_some_iff.mpr ⟨T, hT, rfl⟩, rfl, rfl⟩

/-! ## Agreement -/

/-- What a claim decides and the store it leaves; one that raises grants
nothing and leaves the store alone. -/
def decided (r : Except DbError (Option ClaimedTask × Store)) (s : Store) :
    Option ClaimedTask × Store :=
  match r with
  | .ok p => p
  | .error _ => (none, s)

/-- Both grant the same task with the same reservation, or both grant none and
leave the same store. -/
def Agree (p q : Option ClaimedTask × Store) : Prop :=
  match p.1, q.1 with
  | some g, some g' => g.id = g'.id ∧ reservation p.2 g.id = reservation q.2 g'.id
  | none, none => p.2 = q.2
  | _, _ => False

/-- `claim_task` and `worker_api.claim` on the same store. -/
def ClaimsAgree (x : Txn) (workerId role : String) (capabilities : List String) (s : Store) :
    Prop :=
  Agree (decided (claimTask x workerId capabilities s) s)
    (decided (WorkerApi.claim x role capabilities s) s)

/-- The origin refuses claims beyond this time. -/
def Ahead (now : Time) (o : Origin) : Prop := ∃ u, o.blockedUntil = some u ∧ now < u

/-- Something is left of both budgets. -/
def Affordable (j : Job) : Prop := 0 < j.remainingBytes ∧ 0 < j.remainingArtifacts

/-- A grant is tried and clashes. -/
def TriesInVain (x : Txn) (t : Task) (j : Job) (s : Store) : Prop :=
  s.originLeased t.originKey = false ∧ Affordable j ∧ clashing x t s = true

/-- Both caps allow the same bytes: the page is no document and no image, or
the job has at most the remote cap left. -/
def SameCap (t : Task) (j : Job) : Prop :=
  responseCap t.normalizedUrl = WorkerApi.byteCap ∨ j.remainingBytes ≤ WorkerApi.byteCap

/-- When the claims agree on the task they choose. -/
def AgreeOn (x : Txn) (t : Task) (j : Job) (s : Store) : Prop :=
  match s.origin? t.originKey with
  | none => TriesInVain x t j s
  | some o =>
      if o.circuitState = .open' then
        Ahead x.now o ∨ (o.nextRequestAt ≤ x.now ∧ TriesInVain x t j s)
      else
        ¬ Ahead x.now o ∧ o.nextRequestAt ≤ x.now ∧
          (s.originLeased t.originKey = true ∨
            (Affordable j ∧ (SameCap t j ∨ clashing x t s = true)))

instance (now : Time) (o : Origin) : Decidable (Ahead now o) :=
  decidable_of_iff (o.blockedUntil.any (now < ·) = true) (by simp [Ahead, Option.any_eq_true])

instance (j : Job) : Decidable (Affordable j) :=
  inferInstanceAs (Decidable (0 < j.remainingBytes ∧ 0 < j.remainingArtifacts))

instance (x : Txn) (t : Task) (j : Job) (s : Store) : Decidable (TriesInVain x t j s) :=
  inferInstanceAs (Decidable (_ ∧ Affordable j ∧ _))

instance (t : Task) (j : Job) : Decidable (SameCap t j) :=
  inferInstanceAs (Decidable (_ ∨ _))

instance (x : Txn) (t : Task) (j : Job) (s : Store) : Decidable (AgreeOn x t j s) :=
  match h : s.origin? t.originKey with
  | none => decidable_of_iff (TriesInVain x t j s) (by rw [AgreeOn, h])
  | some o =>
      decidable_of_iff
        (if o.circuitState = .open' then
          Ahead x.now o ∨ (o.nextRequestAt ≤ x.now ∧ TriesInVain x t j s)
        else
          ¬ Ahead x.now o ∧ o.nextRequestAt ≤ x.now ∧
            (s.originLeased t.originKey = true ∨
              (Affordable j ∧ (SameCap t j ∨ clashing x t s = true))))
        (by rw [AgreeOn, h])

theorem agree_none_iff {p : Option ClaimedTask × Store} {s : Store} :
    Agree p (none, s) ↔ p = (none, s) := by
  obtain ⟨g, s'⟩ := p
  cases g with
  | none => simp [Agree]
  | some g => simp [Agree]

/-! ## What the core leaves of a store -/

theorem deferTask_ne {x : Txn} {t : Task} {u : Time} {s s' : Store} (ht : t ∈ s.tasks)
    (hdue : t.availableAt ≤ x.now) (hu : x.now < u) (hs' : s'.tasks = s.tasks) :
    deferTask t.id u s' ≠ s := by
  intro heq
  have hrow : { t with availableAt := u } ∈ (deferTask t.id u s').tasks := by
    refine (@Table.mem_update _ _ (fun t' => t'.id = t.id) (fun t' => { t' with availableAt := u })
      s'.tasks (fun _ => rfl) _).mpr ⟨t, hs' ▸ ht, by simp⟩
  rw [heq] at hrow
  have hsame : { t with availableAt := u } = t := task_eq_of_id hrow ht rfl
  have htime : u = t.availableAt := congrArg Task.availableAt hsame
  rw [htime] at hu
  exact absurd hdue (not_le.mpr hu)

theorem drainUnleased_ne {now : Time} {t : Task} {reason : String} {s s' : Store}
    (ht : t ∈ s.tasks) (hqueued : t.state.queued = true) :
    drainUnleased now t.jobId reason s' ≠ s := by
  intro heq
  have htasks : ∀ u ∈ (drainUnleased now t.jobId reason s').tasks,
      u.jobId = t.jobId → u.state.queued = false := by
    intro u hu hjob
    have hu' : u ∈ (s'.tasks.update (fun t' => t'.jobId = t.jobId && t'.state.queued) fun t' =>
        { t'.unlease with
          state := .permanentFailed, errorClass := some "budget", errorCode := some reason
          finishedAt := some now }) := by
      simp only [drainUnleased] at hu
      split at hu <;> exact hu
    obtain ⟨v, hv, hvu⟩ := Table.mem_update.mp hu'
    subst hvu
    split
    · rfl
    · rename_i hnot
      simp only [Bool.and_eq_true, decide_eq_true_eq, not_and, Bool.not_eq_true] at hnot
      exact hnot (by rwa [if_neg (by simpa using hnot)] at hjob)
  rw [heq] at htasks
  have := htasks t ht rfl
  rw [hqueued] at this
  cases this

theorem halfOpen_ne {o : Origin} {key : String} {s : Store} (ho : o ∈ s.origins)
    (hkey : o.originKey = key) (hopen : o.circuitState = .open') {s' : Store}
    (hs' : s'.origins = (halfOpen key s).origins) : s' ≠ s := by
  rintro rfl
  have hrow : { o with circuitState := .halfOpen } ∈ (halfOpen key s').origins :=
    (@Table.mem_update _ _ (fun o => o.originKey = key)
      (fun o => { o with circuitState := CircuitState.halfOpen }) s'.origins (fun _ => rfl) _).mpr
      ⟨o, ho, by simp [hkey]⟩
  rw [← hs'] at hrow
  have hsame : { o with circuitState := CircuitState.halfOpen } = o :=
    Table.eq_of_clash hrow ho (by simp [Clashes, Keyed.clash, Keyed.key])
  have := congrArg Origin.circuitState hsame
  rw [hopen] at this
  cases this

/-! ## The two decisions -/

theorem responseCap_ge (u : String) : WorkerApi.byteCap ≤ responseCap u := by
  unfold responseCap
  simp only
  split
  · decide
  · split <;> decide

theorem bytes_pos_iff {j : Job} {cap : ℤ} (hcap : WorkerApi.byteCap ≤ cap) :
    0 < min j.remainingBytes cap ↔ 0 < j.remainingBytes := by
  have hpos : (0 : ℤ) < WorkerApi.byteCap := by decide
  rw [lt_min_iff]
  constructor
  · intro h
    exact h.1
  · intro h
    exact ⟨h, lt_of_lt_of_le hpos hcap⟩

theorem artifacts_pos_iff {j : Job} :
    0 < min j.remainingArtifacts inlineArtifactCap ↔ 0 < j.remainingArtifacts := by
  have hpos : (0 : ℤ) < inlineArtifactCap := by decide
  rw [lt_min_iff]
  constructor
  · intro h
    exact h.1
  · intro h
    exact ⟨h, hpos⟩

theorem not_affordable_iff {j : Job} {cap : ℤ} (hcap : WorkerApi.byteCap ≤ cap) :
    min j.remainingBytes cap ≤ 0 ∨ min j.remainingArtifacts inlineArtifactCap ≤ 0 ↔
      ¬ Affordable j := by
  rw [Affordable, not_and_or, ← bytes_pos_iff hcap, ← artifacts_pos_iff, not_lt, not_lt]

theorem sameCap_iff {t : Task} {j : Job} :
    min j.remainingBytes (responseCap t.normalizedUrl) = min j.remainingBytes WorkerApi.byteCap ↔
      SameCap t j := by
  have hcap := responseCap_ge t.normalizedUrl
  unfold SameCap
  omega

variable {x : Txn} {workerId : String} {t : Task} {j : Job} {o : Origin} {s s' : Store}

/-- What the core tries once nothing speaks against the claim. -/
theorem claimPaced_run_free (hpaced : o.nextRequestAt ≤ x.now)
    (hfree : s.originLeased t.originKey = false) (haffordable : Affordable j) :
    claimPaced x workerId t j o s =
      (some <$> grantLease x workerId t j (min j.remainingBytes (responseCap t.normalizedUrl))
        (min j.remainingArtifacts inlineArtifactCap)) s := by
  have hbudget := mt (not_affordable_iff (responseCap_ge t.normalizedUrl)).mp
    (not_not.mpr haffordable)
  unfold claimPaced
  rw [if_neg (not_lt.mpr hpaced), read_bind_run, hfree, if_neg (by simp), if_neg hbudget]

/-- When the core's claim grants nothing and leaves no trace. -/
theorem claimPaced_spares_iff (hc : Candidate x s t j) (htasks : s'.tasks = s.tasks)
    (hattempts : s'.attempts = s.attempts) (hleases : s'.originLeases = s.originLeases) :
    decided (claimPaced x workerId t j o s') s = (none, s) ↔
      o.nextRequestAt ≤ x.now ∧
        ((s.originLeased t.originKey = true ∧ s' = s) ∨ TriesInVain x t j s) := by
  have hleased : s'.originLeased t.originKey = s.originLeased t.originKey := by
    unfold Store.originLeased
    rw [hleases]
  have hclash : clashing x t s' = clashing x t s := by
    unfold clashing
    rw [hattempts, hleases]
  by_cases hpaced : x.now < o.nextRequestAt
  · have hdefer : claimPaced x workerId t j o s' = .ok (none, deferTask t.id o.nextRequestAt s') := by
      unfold claimPaced
      rw [if_pos hpaced, exec_bind_run, pure_run]
    rw [hdefer]
    simp only [decided, Prod.mk.injEq, true_and, not_le.mpr hpaced, false_and, iff_false]
    exact deferTask_ne hc.task hc.due hpaced htasks
  · have hnext := not_lt.mp hpaced
    cases hlease : s.originLeased t.originKey with
    | true =>
        have hnone : claimPaced x workerId t j o s' = .ok (none, s') := by
          unfold claimPaced
          rw [if_neg hpaced, read_bind_run, hleased, hlease, if_pos rfl, pure_run]
        rw [hnone]
        simp [decided, hnext, TriesInVain, hlease]
    | false =>
        by_cases haffordable : Affordable j
        · rw [claimPaced_run_free hnext (hleased.trans hlease) haffordable]
          rcases grantLease_grants x workerId j
            (min j.remainingBytes (responseCap t.normalizedUrl))
            (min j.remainingArtifacts inlineArtifactCap) (htasks ▸ hc.task : t ∈ s'.tasks) with
            ⟨hvain, e, herror⟩ | ⟨hfree, g, s'', hgrant, -, -⟩
          · rw [map_run_error herror]
            simp [decided, hnext, TriesInVain, hlease, haffordable, ← hclash, hvain]
          · rw [map_run_ok hgrant]
            simp [decided, TriesInVain, ← hclash, hfree]
        · have hspent := (not_affordable_iff (responseCap_ge t.normalizedUrl)).mpr haffordable
          have hdrain : ∃ reason, claimPaced x workerId t j o s' =
              .ok (none, drainUnleased x.now t.jobId reason s') := by
            refine ⟨if min j.remainingBytes (responseCap t.normalizedUrl) ≤ 0 then
              "byte_budget_exhausted" else "artifact_budget_exhausted", ?_⟩
            unfold claimPaced
            rw [if_neg hpaced, read_bind_run, hleased, hlease, if_neg (by simp), if_pos hspent,
              exec_bind_run, pure_run]
          obtain ⟨reason, hdrain⟩ := hdrain
          rw [hdrain]
          simp only [decided, Prod.mk.injEq, true_and, TriesInVain, haffordable, false_and,
            and_false, or_false, Bool.false_eq_true, iff_false]
          exact drainUnleased_ne hc.task hc.queued

theorem artifactCap_eq : WorkerApi.artifactCap = inlineArtifactCap := rfl

/-- A worker's claim once the circuit is closed: it grants or does nothing. -/
theorem remote_claimPaced_run (worker : Worker) :
    (o.nextRequestAt ≤ x.now ∧ (∀ u, o.cooldownUntil = some u → u ≤ x.now) ∧
        s.originLeased t.originKey = false ∧ Affordable j ∧
        WorkerApi.claimPaced x worker t j o s =
          (some <$> WorkerApi.grantLease x worker t j (min j.remainingBytes WorkerApi.byteCap)
            (min j.remainingArtifacts WorkerApi.artifactCap)) s) ∨
      (¬ (o.nextRequestAt ≤ x.now ∧ (∀ u, o.cooldownUntil = some u → u ≤ x.now) ∧
          s.originLeased t.originKey = false ∧ Affordable j) ∧
        WorkerApi.claimPaced x worker t j o s = .ok (none, s)) := by
  have hcool : (o.cooldownUntil.any (x.now < ·)) = false ↔
      ∀ u, o.cooldownUntil = some u → u ≤ x.now := by
    cases o.cooldownUntil <;> simp
  have hbudget := not_affordable_iff (j := j) (le_refl WorkerApi.byteCap)
  unfold WorkerApi.claimPaced
  rw [artifactCap_eq]
  by_cases hpaced : x.now < o.nextRequestAt ∨ (o.cooldownUntil.any (x.now < ·)) = true
  · refine Or.inr ⟨?_, by rw [if_pos hpaced, pure_run]⟩
    rintro ⟨hnext, hcooled, -⟩
    rcases hpaced with hpaced | hpaced
    · exact absurd hnext (not_le.mpr hpaced)
    · rw [hcool.mpr hcooled] at hpaced
      cases hpaced
  · obtain ⟨hnext, hcooled⟩ := not_or.mp hpaced
    have hnext := not_lt.mp hnext
    have hcooled := hcool.mp (by simpa using hcooled)
    rw [if_neg hpaced, read_bind_run]
    cases hlease : s.originLeased t.originKey with
    | true =>
        refine Or.inr ⟨?_, by rw [if_pos rfl, pure_run]⟩
        rintro ⟨-, -, hfree, -⟩
        cases hfree
    | false =>
        rw [if_neg (by simp)]
        by_cases haffordable : Affordable j
        · exact Or.inl ⟨hnext, hcooled, rfl, haffordable,
            by rw [if_neg (mt hbudget.mp (not_not.mpr haffordable))]⟩
        · refine Or.inr ⟨fun h => haffordable h.2.2.2, ?_⟩
          rw [if_pos (hbudget.mpr haffordable), pure_run]

/-! ## When they agree -/

theorem filter_ahead (o : Origin) (now : Time) :
    (∃ u, o.blockedUntil.filter (now < ·) = some u ∧ o.blockedUntil = some u ∧ now < u) ∨
      (o.blockedUntil.filter (now < ·) = none ∧ ¬ Ahead now o) := by
  unfold Ahead
  cases o.blockedUntil with
  | none => exact Or.inr ⟨rfl, by simp⟩
  | some u =>
      by_cases hu : now < u
      · exact Or.inl ⟨u, by simp [hu], rfl, hu⟩
      · exact Or.inr ⟨by simpa using hu, by simpa using hu⟩

/-- `ON CONFLICT DO NOTHING` does nothing for an origin that exists. -/
theorem ensureOrigin_of_some (now : Time) {key : String} (h : s.origin? key = some o) :
    s.ensureOrigin now key = s := by
  obtain ⟨ho, hkey⟩ := origin?_eq_some.mp h
  have hclash : s.origins.insert? { originKey := key, nextRequestAt := now } = none := by
    refine Table.insert?_eq_none.mpr ⟨o, ho, ?_⟩
    simp [Clashes, Keyed.clash, Keyed.key, hkey]
  unfold Store.ensureOrigin
  rw [hclash]

/-- It inserts a fresh row otherwise. -/
theorem ensureOrigin_of_none (now : Time) {key : String} (h : s.origin? key = none) :
    (s.ensureOrigin now key).tasks = s.tasks ∧ (s.ensureOrigin now key).attempts = s.attempts ∧
      (s.ensureOrigin now key).originLeases = s.originLeases ∧ s.ensureOrigin now key ≠ s ∧
      (s.ensureOrigin now key).origin? key = some { originKey := key, nextRequestAt := now } := by
  have habsent := Table.find?_eq_none.mp h
  cases hinsert : s.origins.insert? { originKey := key, nextRequestAt := now } with
  | none =>
      obtain ⟨o, ho, hclash⟩ := Table.insert?_eq_none.mp hinsert
      have hkey : o.originKey = key := of_decide_eq_true hclash
      simpa [hkey] using habsent o ho
  | some T =>
      have heq : s.ensureOrigin now key = { s with origins := T } := by
        unfold Store.ensureOrigin
        rw [hinsert]
      have hrow : { originKey := key, nextRequestAt := now } ∈ T :=
        (Table.mem_of_insert? hinsert).mpr (Or.inr rfl)
      rw [heq]
      refine ⟨rfl, rfl, rfl, ?_, origin?_eq_some.mpr ⟨hrow, rfl⟩⟩
      intro hsame
      have horigins : T = s.origins := congrArg Store.origins hsame
      rw [horigins] at hrow
      simpa using habsent _ hrow

/-- `claim_task`, once the origin's row is there. -/
theorem claimLocked_run (hfound : (s.ensureOrigin x.now t.originKey).origin? t.originKey = some o) :
    claimLocked x workerId t j s =
      match o.blockedUntil.filter (x.now < ·) with
      | some u => .ok (none, deferTask t.id u (s.ensureOrigin x.now t.originKey))
      | none =>
          claimPaced x workerId t j o
            (if o.circuitState = .open' then
              halfOpen t.originKey (s.ensureOrigin x.now t.originKey)
            else s.ensureOrigin x.now t.originKey) := by
  unfold claimLocked
  rw [exec_bind_run, read_bind_run, hfound]
  dsimp only
  cases o.blockedUntil.filter (x.now < ·) with
  | some u => rfl
  | none => rfl

/-- With the circuit closed and the cooldown over. -/
theorem agree_paced_iff (worker : Worker) (hc : Candidate x s t j)
    (hcooled : ∀ u, o.cooldownUntil = some u → u ≤ x.now) :
    Agree (decided (claimPaced x workerId t j o s) s)
        (decided (WorkerApi.claimPaced x worker t j o s) s) ↔
      o.nextRequestAt ≤ x.now ∧ (s.originLeased t.originKey = true ∨
        (Affordable j ∧ (SameCap t j ∨ clashing x t s = true))) := by
  rcases @remote_claimPaced_run x t j o s worker with
    ⟨hnext, -, hfree, haffordable, hrun⟩ | ⟨hrefused, hnone⟩
  · rw [hrun, claimPaced_run_free hnext hfree haffordable]
    have hcore := grantLease_grants x workerId j
      (min j.remainingBytes (responseCap t.normalizedUrl))
      (min j.remainingArtifacts inlineArtifactCap) hc.task
    have hremote := remote_grantLease_grants x worker j (min j.remainingBytes WorkerApi.byteCap)
      (min j.remainingArtifacts WorkerApi.artifactCap) hc.task
    rcases hcore with ⟨hvain, e, hcore⟩ | ⟨hclear, g, s₁, hcore, hid, hrow⟩
    · rcases hremote with ⟨-, e', hremote⟩ | ⟨hclear, -⟩
      · rw [map_run_error hcore, map_run_error hremote]
        simp [decided, Agree, hnext, haffordable, hvain]
      · rw [hvain] at hclear
        cases hclear
    · rcases hremote with ⟨hvain, -⟩ | ⟨-, g', s₂, hremote, hid', hrow'⟩
      · rw [hvain] at hclear
        cases hclear
      · rw [map_run_ok hcore, map_run_ok hremote]
        simp only [decided, Agree, hid, hid', hrow, hrow', true_and, Option.some.injEq,
          Prod.mk.injEq, artifactCap_eq, and_true, sameCap_iff, hnext, hfree, haffordable, hclear,
          Bool.false_eq_true, false_or, or_false]
  · rw [hnone]
    show Agree _ (none, s) ↔ _
    have hspares := @claimPaced_spares_iff x workerId t j o s s hc rfl rfl rfl
    rw [agree_none_iff, hspares]
    unfold TriesInVain
    cases hleased : s.originLeased t.originKey with
    | true => simp
    | false =>
        -- The worker had no other reason to refuse.
        have hno : o.nextRequestAt ≤ x.now → ¬ Affordable j := by
          intro hnext haffordable
          exact hrefused ⟨hnext, hcooled, hleased, haffordable⟩
        simp only [Bool.false_eq_true, false_and, false_or, true_and, and_congr_right_iff]
        intro hnext
        simp [hno hnext]

/-- The claims agree on their candidate exactly when `AgreeOn` holds. -/
theorem agree_on_iff (worker : Worker) (hc : Candidate x s t j) :
    Agree (decided (claimLocked x workerId t j s) s)
        (decided (match s.origin? t.originKey with
          | none => .ok (none, s)
          | some o => WorkerApi.claimLocked x worker t j o s) s) ↔ AgreeOn x t j s := by
  unfold AgreeOn
  cases horigin : s.origin? t.originKey with
  | none =>
      obtain ⟨htasks, hattempts, hleases, hnew, hfound⟩ := ensureOrigin_of_none x.now horigin
      show Agree _ (none, s) ↔ TriesInVain x t j s
      rw [agree_none_iff, claimLocked_run hfound]
      show decided (claimPaced x workerId t j _ _) s = _ ↔ _
      rw [if_neg (by simp), claimPaced_spares_iff hc htasks hattempts hleases]
      simp [hnew]
  | some o =>
      obtain ⟨ho, hkey⟩ := origin?_eq_some.mp horigin
      have hensured := ensureOrigin_of_some x.now horigin
      rw [claimLocked_run (hensured.symm ▸ horigin), hensured]
      unfold WorkerApi.claimLocked
      by_cases hopen : o.circuitState = .open'
      · have hblocked : o.blockedUntil = greatest o.cooldownUntil o.circuitOpenUntil := if_pos hopen
        simp only [hopen, if_true]
        rw [← hblocked]
        rcases filter_ahead o x.now with ⟨u, hfilter, hu, hlater⟩ | ⟨hfilter, hpast⟩
        · -- Both defer the task to the same time.
          rw [hfilter]
          have hahead : Ahead x.now o := ⟨u, hu, hlater⟩
          simp [decided, Agree, hahead]
        · -- The core probes; the worker's statement raises.
          rw [hfilter]
          show Agree (decided (claimPaced x workerId t j o (halfOpen t.originKey s)) s) (none, s) ↔ _
          have hprobed := @halfOpen_ne o t.originKey s ho hkey hopen _ rfl
          have hspares := @claimPaced_spares_iff x workerId t j o s (halfOpen t.originKey s) hc rfl
            rfl rfl
          rw [agree_none_iff, hspares]
          simp [hprobed, hpast]
      · have hblocked : o.blockedUntil = o.cooldownUntil := if_neg hopen
        simp only [hopen, if_false]
        rcases filter_ahead o x.now with ⟨u, hfilter, hu, hlater⟩ | ⟨hfilter, hpast⟩
        · -- The core defers the task, the worker leaves it.
          rw [hfilter]
          have hahead : Ahead x.now o := ⟨u, hu, hlater⟩
          rcases @remote_claimPaced_run x t j o s worker with ⟨-, hcooled, -⟩ | ⟨-, hnone⟩
          · exact absurd (hcooled u (hblocked ▸ hu)) (not_le.mpr hlater)
          · rw [hnone]
            show Agree (decided (.ok (none, deferTask t.id u s)) s) (none, s) ↔ _
            rw [agree_none_iff]
            simp only [decided, Prod.mk.injEq, true_and, hahead, not_true_eq_false, false_and,
              iff_false]
            exact deferTask_ne hc.task hc.due hlater rfl
        · rw [hfilter]
          have hcooled : ∀ u, o.cooldownUntil = some u → u ≤ x.now := by
            intro u hu
            exact not_lt.mp fun hlater => hpast ⟨u, hblocked.trans hu, hlater⟩
          show Agree (decided (claimPaced x workerId t j o s) s)
            (decided (WorkerApi.claimPaced x worker t j o s) s) ↔ _
          rw [agree_paced_iff worker hc hcooled]
          simp [hpast]

/-- `claim_task` and `worker_api.claim` of a worker with these capabilities
agree exactly when `AgreeOn` holds of the task they choose, if there is one. -/
theorem claims_agree_iff (x : Txn) (workerId role : String) (capabilities : List String)
    (s : Store) (worker : Worker)
    (hworker : WorkerApi.identity role false s = .ok (worker, s))
    (hcapable : capabilities.all worker.capabilities.contains = true) :
    ClaimsAgree x workerId role capabilities s ↔
      ∀ t j, candidate x capabilities s = some (t, j) → AgreeOn x t j s := by
  unfold ClaimsAgree
  rw [claimTask_run, remote_claim_run hworker hcapable]
  cases hcandidate : candidate x capabilities s with
  | none => simp [decided, Agree]
  | some p =>
      obtain ⟨t, j⟩ := p
      have hc := candidate_eq_some hcandidate
      show Agree _ _ ↔ _
      rw [agree_on_iff worker hc]
      simp

/-! ## Samples -/

/-- A store with an enrolled worker and a crawl of this page. -/
def submitted (url : String) : Store :=
  run Sample.identity {}
    [Sample.enrol, ⟨Sample.submit.txn, .submitJob { Sample.config with url } none⟩]

theorem claims_agree_page :
    ClaimsAgree Sample.claim.txn "local" "worker_edge" ["http"]
      (submitted "https://example.com") := by
  let s := submitted "https://example.com"
  have hworker : ∃ worker, WorkerApi.identity "worker_edge" false s = .ok (worker, s) ∧
      worker.capabilities = ["http"] := ⟨_, rfl, rfl⟩
  obtain ⟨worker, hworker, hcapable⟩ := hworker
  have hagree : (candidate Sample.claim.txn ["http"] s).all
      (fun p => decide (AgreeOn Sample.claim.txn p.1 p.2 s)) = true := by decide
  refine (claims_agree_iff Sample.claim.txn "local" "worker_edge" ["http"] s worker hworker
    (by rw [hcapable]; decide)).mpr fun t j hc => ?_
  simpa [hc] using hagree

theorem Agree.reservations {p q : Option ClaimedTask × Store} (h : Agree p q) :
    (p.1.map fun g => reservation p.2 g.id) = q.1.map fun g => reservation q.2 g.id := by
  obtain ⟨g, s⟩ := p
  obtain ⟨g', s'⟩ := q
  cases g with
  | none =>
      cases g' with
      | none => rfl
      | some g' => exact h.elim
  | some g =>
      cases g' with
      | none => exact h.elim
      | some g' => exact congrArg some h.2

/-- The seed is a document: the core reserves 50 MiB for it, a worker 10. -/
theorem claims_differ_document :
    ¬ ClaimsAgree Sample.claim.txn "local" "worker_edge" ["http"]
      (submitted "https://example.com/a.pdf") := by
  intro h
  have hsame := h.reservations
  revert hsame
  decide

end Protocol

end CrawlTrove
