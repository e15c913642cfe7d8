import CrawlTrove.Lifecycle.Refinement

/-!
# What actions do to single rows

Views of the actions. Either every task row moves in one of four ways
(`TaskMove`) or one row arrives; the columns of a job that say whether it was
cancelled and whether it has ended (`Job.status`) change only when it is
flagged or closed; an attempt is closed with its lease or settled once.
Invariants about single rows need nothing else of an action.
-/

namespace CrawlTrove

open Relational Numerals

namespace Lifecycle

/-! ## Tasks -/

/-- What an action may do to a task row. -/
inductive TaskMove (s : Store) (e : Event) (t t' : Task) : Prop
  | keep (h : Task.To id t t')
  | lease (token : Uuid) (bytes artifacts : ℤ) (resumed : Bool)
      (active : ∃ j ∈ s.jobs, j.id = t.jobId ∧ j.cancelRequestedAt = none)
      (room : 0 < bytes ∧ 0 < artifacts)
      (state : if resumed then t.state = .waitingInput else
        t.state = .pending ∨ t.state = .retryWait)
      (h : Task.To (granted token bytes artifacts resumed) t t')
  | settle (σ : TaskState) (leased : t.state = .leased) (ends : σ ≠ .leased ∧ σ ≠ .pending)
      (hblocked : σ = .blockedRobots → ∃ counted, e = .blocked t counted)
      (hqueued : σ.terminal = false →
        (∀ j ∈ s.jobs, j.id = t.jobId → j.cancelRequestedAt = none) ∨ e = .requeued t)
      (h : Task.To (settleTask σ) t t')
  | drain (σ : TaskState) (queued : t.state.queued = true)
      (ends : σ = .permanentFailed ∨ σ = .cancelled) (h : Drained σ t t')

/-- A task row arrives: a seed, a child of a page, or a further seed. -/
inductive Arrives (s : Store) (e : Event) (s' : Store) (child : Task) : Prop
  | seed (j : Job) (h : Submits j child s s')
  | page (j : Job) (parent : Task) (h : Discovers j parent child s s')
      (hrevived : j.state.terminal = true → e = .revived j.id)
  | plant (h : Plants child s s') (hpopulated : e = .populated child.jobId)

/-- Kept rows make any change of some rows a change of all. -/
theorem moves_of_changed {s : Store} {e : Event} {p : Task → Bool} {R : Task → Task → Prop}
    {T : Table Task} (h : s.tasks.Changed p R T)
    (hR : ∀ t t', t ∈ s.tasks → p t = true → R t t' → TaskMove s e t t') :
    s.tasks.Changed (fun _ => true) (TaskMove s e) T :=
  (h.mono hR).widen (fun _ _ _ => rfl) fun _ _ _ => .keep rfl

theorem moves_refl (s : Store) (e : Event) {T : Table Task} (h : T = s.tasks) :
    s.tasks.Changed (fun _ => true) (TaskMove s e) T := by
  rw [h]
  exact Table.Changed.refl fun _ _ _ => .keep rfl

/-- Every task row moves, or one arrives. -/
theorem Action.tasks {s : Store} {e : Event} {s' : Store} (h : Action s e s') :
    s.tasks.Changed (fun _ => true) (TaskMove s e) s'.tasks ∨
      ∃ child, s.tasks.insert? child = some s'.tasks ∧ Arrives s e s' child := by
  cases h with
  | idle h => exact Or.inl (h.tasks.mono fun t t' _ _ ht => .keep ht)
  | submit j seed h => exact Or.inr ⟨seed, h.tasks, .seed j h⟩
  | lease j t token bytes artifacts resumed h =>
      refine Or.inl (moves_of_changed h.tasks fun x x' hx hid hto => ?_)
      obtain rfl := task_eq_of_id hx h.task (of_decide_eq_true hid)
      exact .lease token bytes artifacts resumed ⟨j, h.job.1, h.job.2.1, h.job.2.2⟩
        ⟨h.bytes_ok.1, h.artifacts_ok.1⟩ h.state hto
  | settle e t σ downloaded artifacts counted hblocked hfailed hqueued h =>
      refine Or.inl (moves_of_changed h.tasks fun x x' hx hid hto => ?_)
      obtain rfl := task_eq_of_id hx h.task.1 (of_decide_eq_true hid)
      exact .settle σ h.task.2 h.ends (fun hσ => ⟨counted, hblocked hσ⟩) hqueued hto
  | drain jobId σ h =>
      refine Or.inl (moves_of_changed h.tasks fun x x' _ hp hto => ?_)
      simp only [Bool.and_eq_true] at hp
      exact .drain σ hp.2 h.ends hto
  | expire e t σ counted hfailed h =>
      refine Or.inl (moves_of_changed h.tasks fun x x' hx hid hto => ?_)
      obtain rfl := task_eq_of_id hx h.task.1 (of_decide_eq_true hid)
      exact .drain σ (by rw [h.task.2]; rfl) h.ends hto
  | flag jobId now h => exact Or.inl (moves_refl s _ h.tasks)
  | close jobId state h => exact Or.inl (moves_refl s _ h.tasks)
  | discover e j parent child hrevived h =>
      exact Or.inr ⟨child, h.tasks, .page j parent h hrevived⟩
  | plant child h => exact Or.inr ⟨child, h.tasks, .plant h rfl⟩
  | recount jobId n h => exact Or.inl (moves_refl s _ h.tasks)
  | reserve e j t a route hunread h => exact Or.inl (moves_refl s _ h.tasks)
  | consume a released actual h => exact Or.inl (moves_refl s _ h.tasks)

/-- A row of the new store comes from a row of the old one, or has arrived. -/
theorem Action.task_old {s : Store} {e : Event} {s' : Store} (h : Action s e s') {t' : Task}
    (ht' : t' ∈ s'.tasks) :
    (∃ t ∈ s.tasks, Keyed.key t' = Keyed.key t ∧ TaskMove s e t t') ∨ Arrives s e s' t' := by
  rcases h.tasks with hmoves | ⟨child, hinsert, harrives⟩
  · obtain ⟨t, ht, hkey, hmove⟩ := hmoves.mem_old ht'
    rcases hmove with ⟨-, hmove⟩ | ⟨hfalse, -⟩
    · exact Or.inl ⟨t, ht, hkey, hmove⟩
    · cases hfalse
  · rcases (Table.mem_of_insert? hinsert).mp ht' with ht | rfl
    · exact Or.inl ⟨t', ht, rfl, .keep rfl⟩
    · exact Or.inr harrives

/-- Every row of the old store lives on. -/
theorem Action.task_new {s : Store} {e : Event} {s' : Store} (h : Action s e s') {t : Task}
    (ht : t ∈ s.tasks) : ∃ t' ∈ s'.tasks, Keyed.key t' = Keyed.key t ∧ TaskMove s e t t' := by
  rcases h.tasks with hmoves | ⟨child, hinsert, -⟩
  · obtain ⟨t', ht', hkey, hmove⟩ := hmoves.mem_new ht
    rcases hmove with ⟨-, hmove⟩ | ⟨hfalse, -⟩
    · exact ⟨t', ht', hkey, hmove⟩
    · cases hfalse
  · exact ⟨t, (Table.mem_of_insert? hinsert).mpr (Or.inl ht), rfl, .keep rfl⟩

/-- The columns of a task that never change. -/
def Task.place (t : Task) : Uuid × Uuid × String × String × ℤ × ℤ × Option Uuid :=
  (t.id, t.jobId, t.urlHash, t.originKey, t.depth, t.discoverySeq, t.discoveredFromTaskId)

theorem TaskMove.place {s : Store} {e : Event} {t t' : Task} (h : TaskMove s e t t') :
    Task.place t' = Task.place t := by
  have hcore : ∀ t : Task, Task.place t.core = Task.place t := fun _ => rfl
  cases h with
  | keep h => exact h.get Task.place hcore
  | lease token bytes artifacts resumed active room state h => exact h.get Task.place hcore
  | settle σ leased ends hblocked hqueued h => exact h.get Task.place hcore
  | drain σ queued ends h =>
      rcases h with h | h
      · exact h.get Task.place hcore
      · exact h.get Task.place hcore

theorem TaskMove.jobId {s : Store} {e : Event} {t t' : Task} (h : TaskMove s e t t') :
    t'.jobId = t.jobId := congrArg (fun p => p.2.1) h.place

theorem TaskMove.id {s : Store} {e : Event} {t t' : Task} (h : TaskMove s e t t') :
    t'.id = t.id := congrArg (fun p => p.1) h.place

theorem Arrives.insert {s : Store} {e : Event} {s' : Store} {child : Task}
    (h : Arrives s e s' child) : s.tasks.insert? child = some s'.tasks := by
  cases h with
  | seed j h => exact h.tasks
  | page j parent h => exact h.tasks
  | plant h => exact h.tasks

/-- One row at most arrives. -/
theorem Arrives.unique {s : Store} {e : Event} {s' : Store} {child other : Task}
    (h : Arrives s e s' child) (hother : s.tasks.insert? other = some s'.tasks) :
    child = other := by
  have hrows := (Table.insert?_eq_some.mp h.insert).2
  rw [(Table.insert?_eq_some.mp hother).2] at hrows
  simpa using hrows.symm

/-- Leases are granted to queued tasks. -/
theorem queued_of_leases {t : Task} {resumed : Bool}
    (h : if resumed then t.state = .waitingInput else t.state = .pending ∨ t.state = .retryWait) :
    t.state.queued = true := by
  cases resumed with
  | true =>
      rw [show t.state = .waitingInput from h]
      rfl
  | false =>
      simp only [Bool.false_eq_true, if_false] at h
      rcases h with hstate | hstate <;> rw [hstate] <;> rfl

/-- A task that has ended keeps its state. -/
theorem TaskMove.terminal {s : Store} {e : Event} {t t' : Task} (h : TaskMove s e t t')
    (ht : t.state.terminal = true) : t'.state = t.state := by
  cases h with
  | keep h => exact h.get Task.state fun _ => rfl
  | lease token bytes artifacts resumed active room state h =>
      rw [TaskState.not_terminal_of_queued (queued_of_leases state)] at ht
      cases ht
  | settle σ leased ends hblocked hqueued h =>
      rw [leased] at ht
      cases ht
  | drain σ queued ends h =>
      rw [TaskState.not_terminal_of_queued queued] at ht
      cases ht

/-- What every arriving row looks like. -/
theorem Arrives.unleased {s : Store} {e : Event} {s' : Store} {child : Task}
    (h : Arrives s e s' child) :
    child.state = .pending ∧ child.leaseToken = none ∧ child.byteBudgetReserved = 0 ∧
      child.artifactBudgetReserved = 0 := by
  cases h with
  | seed j h => exact h.seed_state
  | page j parent h => exact h.state
  | plant h => exact h.state

/-! ## Jobs -/

/-- Whether a job was cancelled and what it ended as. -/
def Job.status (j : Job) : Option Time × JobState := (j.cancelRequestedAt, j.core.state)

/-- The columns of a job that never change. -/
def Job.terms (j : Job) : Uuid × CrawlConfig × ℤ × ℤ × ℤ :=
  (j.id, j.config, j.maxPages, j.maxBytes, j.maxArtifactBytes)

/-- The state a job may be closed in: cancelled with its last lease, or what
the finalizer makes of its terminal tasks. -/
def Verdict (s : Store) (j : Job) (state : JobState) : Prop :=
  (state = .cancelled ∧ j.cancelRequestedAt.isSome = true ∧
      ∀ t ∈ s.tasks, t.jobId = j.id → t.state ≠ .leased) ∨
    (j.state.terminal = false ∧ (∃ expired,
        state = finalState j.cancelRequestedAt.isSome expired (tally s j.id (· = .succeeded))
          (tally s j.id (· = .blockedRobots)) (tally s j.id TaskState.failed)) ∧
      ∀ t ∈ s.tasks, t.jobId = j.id → t.state.terminal = true)

/-- What an action may do to the status of a job row. -/
inductive JobMove (s s' : Store) (j j' : Job) : Prop
  | keep (h : Job.status j' = Job.status j)
  | flag (now : Time) (idle : ∀ t ∈ s.tasks, t.jobId = j.id → t.state.queued = false)
      (active : j.state.terminal = false) (tasks : s'.tasks = s.tasks)
      (h : Job.To (fun j => { j with
        cancelRequestedAt := some (j.cancelRequestedAt.getD now) }) j j')
  | close (state : JobState) (verdict : Verdict s j state)
      (tasks : s'.tasks = s.tasks) (h : Job.To (fun j => { j with state }) j j')

theorem Job.core_core (j : Job) : j.core.core = j.core := by
  have hstate : (if j.core.state.terminal then j.core.state else .running) = j.core.state := by
    by_cases h : j.state.terminal = true
    · simp [Job.core, h]
    · simp [Job.core, h]
  unfold Job.core at hstate ⊢
  simp only at hstate ⊢
  rw [hstate]

theorem Job.status_core (j : Job) : Job.status j.core = Job.status j := by
  simp only [Job.status, Job.core_core]
  rfl

theorem JobMove.of_to {s s' : Store} {spec : Job → Job} {j j' : Job} (h : Job.To spec j j')
    (hspec : Job.status (spec j) = Job.status j) : JobMove s s' j j' :=
  .keep ((h.get Job.status Job.status_core).trans hspec)

theorem status_eq {j j' : Job} (h : Job.status j' = Job.status j) :
    j'.cancelRequestedAt = j.cancelRequestedAt ∧ j'.state.terminal = j.state.terminal := by
  simp only [Job.status, Prod.mk.injEq] at h
  refine ⟨h.1, ?_⟩
  rw [← Job.core_terminal j', ← Job.core_terminal j, h.2]

/-- What a terminal job reads, it reads in `core`. -/
theorem status_terminal {j j' : Job} (h : Job.status j' = Job.status j)
    (hend : j.state.terminal = true) : j'.state = j.state := by
  have hend' := (status_eq h).2.trans hend
  simpa [Job.status, Job.core, hend, hend'] using congrArg Prod.snd h

theorem finalState_terminal (cancelled expired : Bool) (succeeded blocked failed : ℤ) :
    (finalState cancelled expired succeeded blocked failed).terminal = true := by
  unfold finalState
  split_ifs <;> rfl

theorem JobMove.flagged {s s' : Store} {j j' : Job} (h : JobMove s s' j j')
    (hflag : j.cancelRequestedAt.isSome = true) : j'.cancelRequestedAt.isSome = true := by
  cases h with
  | keep h => rw [(status_eq h).1, hflag]
  | flag now idle active tasks h =>
      rw [h.get Job.cancelRequestedAt fun _ => rfl]
      rfl
  | close state verdict tasks h =>
      rw [h.get Job.cancelRequestedAt fun _ => rfl]
      exact hflag

/-- The state a closed job ends in. -/
theorem Verdict.closed {s : Store} {j j' : Job} {state : JobState} (verdict : Verdict s j state)
    (h : Job.To (fun j => { j with state }) j j') : state.terminal = true ∧ j'.state = state := by
  have hend : state.terminal = true := by
    rcases verdict with ⟨rfl, -⟩ | ⟨-, ⟨expired, rfl⟩, -⟩
    · rfl
    · exact finalState_terminal ..
  exact ⟨hend, (status_terminal (h.get Job.status Job.status_core) hend :)⟩

theorem JobMove.terminal {s s' : Store} {j j' : Job} (h : JobMove s s' j j')
    (hend : j.state.terminal = true) : j'.state.terminal = true := by
  cases h with
  | keep h => exact (status_eq h).2.trans hend
  | flag now idle active tasks h =>
      rw [hend] at active
      cases active
  | close state verdict tasks h =>
      obtain ⟨hstate, hj'⟩ := verdict.closed h
      rw [hj', hstate]

theorem jobMoves_of_changed {s s' : Store} {p : Job → Bool} {R : Job → Job → Prop}
    (h : s.jobs.Changed p R s'.jobs) (hR : ∀ j j', j ∈ s.jobs → p j = true → R j j' →
      Job.terms j' = Job.terms j ∧ JobMove s s' j j') :
    s.jobs.Changed (fun _ => true) (fun j j' => Job.terms j' = Job.terms j ∧ JobMove s s' j j')
      s'.jobs :=
  (h.mono hR).widen (fun _ _ _ => rfl) fun _ _ _ => ⟨rfl, .keep rfl⟩

theorem jobMoves_refl (s s' : Store) (h : s'.jobs = s.jobs) :
    s.jobs.Changed (fun _ => true) (fun j j' => Job.terms j' = Job.terms j ∧ JobMove s s' j j')
      s'.jobs := by
  rw [h]
  exact Table.Changed.refl fun _ _ _ => ⟨rfl, .keep rfl⟩

theorem Job.To.terms {spec : Job → Job} {j j' : Job} (h : Job.To spec j j')
    (hspec : Job.terms (spec j) = Job.terms j) : Job.terms j' = Job.terms j :=
  (h.get Job.terms fun _ => rfl).trans hspec

/-- Every job row moves, or one is submitted. -/
theorem Action.jobs {s : Store} {e : Event} {s' : Store} (h : Action s e s') :
    s.jobs.Changed (fun _ => true) (fun j j' => Job.terms j' = Job.terms j ∧ JobMove s s' j j')
        s'.jobs ∨
      ∃ j seed, Submits j seed s s' := by
  cases h with
  | idle h =>
      exact Or.inl (jobMoves_of_changed h.jobs fun j j' _ _ hto =>
        ⟨Job.To.terms hto rfl, .of_to hto rfl⟩)
  | submit j seed h => exact Or.inr ⟨j, seed, h⟩
  | lease j t token bytes artifacts resumed h =>
      exact Or.inl (jobMoves_of_changed h.jobs fun j j' _ _ hto =>
        ⟨Job.To.terms hto rfl, .of_to hto rfl⟩)
  | settle e t σ downloaded artifacts counted hblocked hfailed hqueued h =>
      exact Or.inl (jobMoves_of_changed h.jobs fun j j' _ _ hto =>
        ⟨Job.To.terms hto rfl, .of_to hto rfl⟩)
  | drain jobId σ h =>
      exact Or.inl (jobMoves_of_changed h.jobs fun j j' _ _ hto =>
        ⟨Job.To.terms hto rfl, .of_to hto rfl⟩)
  | expire e t σ counted hfailed h =>
      exact Or.inl (jobMoves_of_changed h.jobs fun j j' _ _ hto =>
        ⟨Job.To.terms hto rfl, .of_to hto rfl⟩)
  | flag jobId now h =>
      refine Or.inl (jobMoves_of_changed h.jobs fun j j' hj hid hto =>
        ⟨Job.To.terms hto rfl, .flag now ?_ ?_ h.tasks hto⟩)
      · exact fun t ht hjob => h.idle t ht (hjob.trans (of_decide_eq_true hid))
      · exact h.active j hj (of_decide_eq_true hid)
  | close jobId state h =>
      refine Or.inl (jobMoves_of_changed h.jobs fun j j' hj hid hto =>
        ⟨Job.To.terms hto rfl, .close state ?_ h.tasks hto⟩)
      obtain rfl : j.id = jobId := of_decide_eq_true hid
      rcases h.verdict with ⟨hstate, hflag, hidle⟩ | ⟨⟨k, hk, hkid, hactive, hverdict⟩, hend⟩
      · exact Or.inl ⟨hstate, hflag j hj rfl, hidle⟩
      · obtain rfl := job_eq_of_id hk hj hkid
        exact Or.inr ⟨hactive, hverdict, hend⟩
  | discover e j parent child hrevived h =>
      exact Or.inl (jobMoves_of_changed h.jobs fun j j' _ _ hto =>
        ⟨Job.To.terms hto rfl, .of_to hto rfl⟩)
  | plant child h => exact Or.inl (jobMoves_refl s _ h.jobs)
  | recount jobId n h =>
      exact Or.inl (jobMoves_of_changed h.jobs fun j j' _ _ hto =>
        ⟨Job.To.terms hto rfl, .of_to hto rfl⟩)
  | reserve e j t a route hunread h => exact Or.inl (jobMoves_refl s _ h.jobs)
  | consume a released actual h => exact Or.inl (jobMoves_refl s _ h.jobs)

/-- A row of the new store comes from a row of the old one, or was submitted. -/
theorem Action.job_old {s : Store} {e : Event} {s' : Store} (h : Action s e s') {j' : Job}
    (hj' : j' ∈ s'.jobs) :
    (∃ j ∈ s.jobs, Job.terms j' = Job.terms j ∧ JobMove s s' j j') ∨ ∃ seed, Submits j' seed s s' := by
  rcases h.jobs with hmoves | ⟨j, seed, hsubmits⟩
  · obtain ⟨j, hj, -, hmove⟩ := hmoves.mem_old hj'
    rcases hmove with ⟨-, hmove⟩ | ⟨hfalse, -⟩
    · exact Or.inl ⟨j, hj, hmove⟩
    · cases hfalse
  · rcases (Table.mem_of_insert? hsubmits.jobs).mp hj' with hj | rfl
    · exact Or.inl ⟨j', hj, rfl, .keep rfl⟩
    · exact Or.inr ⟨seed, hsubmits⟩

/-- Every row of the old store lives on. -/
theorem Action.job_new {s : Store} {e : Event} {s' : Store} (h : Action s e s') {j : Job}
    (hj : j ∈ s.jobs) : ∃ j' ∈ s'.jobs, Job.terms j' = Job.terms j ∧ JobMove s s' j j' := by
  rcases h.jobs with hmoves | ⟨k, seed, hsubmits⟩
  · obtain ⟨j', hj', -, hmove⟩ := hmoves.mem_new hj
    rcases hmove with ⟨-, hmove⟩ | ⟨hfalse, -⟩
    · exact ⟨j', hj', hmove⟩
    · cases hfalse
  · exact ⟨j, (Table.mem_of_insert? hsubmits.jobs).mpr (Or.inl hj), rfl, .keep rfl⟩

/-! ## Attempts -/

/-- The columns of an attempt that never change. -/
def Attempt.terms (a : Attempt) :
    Uuid × Uuid × Uuid × ℤ × Option Route × Option Provider × Option Uuid × Cost :=
  (a.id, a.jobId, a.taskId, a.attemptNumber, a.route, a.provider, a.leaseToken, a.reservedCost)

/-- What an action may do to an attempt row. -/
inductive AttemptMove (s : Store) (a a' : Attempt) : Prop
  | keep (h : a' = a)
  | close (t : Task) (downloaded artifacts : ℤ) (task : t ∈ s.tasks)
      (state : t.state = .leased ∨ t.state = .waitingInput)
      (current : a.taskId = t.id ∧ a.attemptNumber = t.attemptCount)
      (h : ClosedWith downloaded artifacts a a')
  | consume (actual : Meter → Numeral)
      (outstanding : a.leaseToken.isSome = true ∧ a.finishedAt = none)
      (cost : ∀ route, a.route = some route → ∀ m, m ∉ route.meters → actual m = 0)
      (finished : a'.finishedAt.isSome = true) (h : a'.actualCost = { native := actual })

/-- An attempt row arrives: of a worker with its lease, or of a provider. -/
inductive AttemptArrives (s : Store) (e : Event) (s' : Store) (a : Attempt) : Prop
  | worker (t : Task) (task : t ∈ s.tasks ∧ t.id = a.taskId ∧ t.jobId = a.jobId)
      (h : a.leaseToken = none ∧ a.actualCost = {})
  | provider (j : Job) (t : Task) (route : Route)
      (hunread : ¬a.reservedCost.Survives → e = .unread t.jobId) (h : Reserves j t a route s s')

theorem attemptMoves_refl (s : Store) {T : Table Attempt} (h : T = s.attempts) :
    s.attempts.Changed (fun _ => true)
      (fun a a' => Attempt.terms a' = Attempt.terms a ∧ AttemptMove s a a') T := by
  rw [h]
  exact Table.Changed.refl fun _ _ _ => ⟨rfl, .keep rfl⟩

/-- The moves of some rows, with their keys, as the moves of all. -/
theorem attemptMoves_of_changed {s : Store} {p : Attempt → Bool} {R : Attempt → Attempt → Prop}
    {T : Table Attempt} (h : s.attempts.Changed p R T)
    (hR : ∀ a a', a ∈ s.attempts → p a = true → R a a' →
      (a'.jobId = a.jobId ∧ a'.route = a.route ∧ a'.provider = a.provider ∧
        a'.leaseToken = a.leaseToken ∧ a'.reservedCost = a.reservedCost) ∧ AttemptMove s a a') :
    s.attempts.Changed (fun _ => true)
      (fun a a' => Attempt.terms a' = Attempt.terms a ∧ AttemptMove s a a') T := by
  obtain ⟨f, hf, rfl, hrows⟩ := h
  have hmoves : s.attempts.Changed p
      (fun a a' => Attempt.terms a' = Attempt.terms a ∧ AttemptMove s a a')
      (s.attempts.update p f hf) := by
    refine ⟨f, hf, rfl, fun a ha hp => ?_⟩
    obtain ⟨⟨hjob, hroute, hprovider, htoken, hreserved⟩, hmove⟩ := hR a (f a) ha hp (hrows a ha hp)
    have hkey : ((f a).id, (f a).taskId, (f a).attemptNumber) =
      (a.id, a.taskId, a.attemptNumber) := hf a
    simp only [Prod.mk.injEq] at hkey
    refine ⟨?_, hmove⟩
    simp only [Attempt.terms, hkey, hjob, hroute, hprovider, htoken, hreserved]
  exact hmoves.widen (fun _ _ _ => rfl) fun _ _ _ => ⟨rfl, .keep rfl⟩

/-- Closing the current attempt of a task is a move. -/
theorem attemptMoves_closed {s : Store} {t : Task} {downloaded artifacts : ℤ} {T : Table Attempt}
    (ht : t ∈ s.tasks) (hstate : t.state = .leased ∨ t.state = .waitingInput)
    (h : s.attempts.Changed (currentAttempt t) (ClosedWith downloaded artifacts) T) :
    s.attempts.Changed (fun _ => true)
      (fun a a' => Attempt.terms a' = Attempt.terms a ∧ AttemptMove s a a') T := by
  refine attemptMoves_of_changed h fun a a' _ hp hclosed =>
    ⟨⟨hclosed.jobId, hclosed.route, hclosed.provider, hclosed.leaseToken, hclosed.reservedCost⟩,
      .close t downloaded artifacts ht hstate ?_ hclosed⟩
  simpa [currentAttempt] using hp

/-- Every attempt row moves, or one arrives. -/
theorem Action.attempts {s : Store} {e : Event} {s' : Store} (h : Action s e s') :
    s.attempts.Changed (fun _ => true)
        (fun a a' => Attempt.terms a' = Attempt.terms a ∧ AttemptMove s a a') s'.attempts ∨
      ∃ a, s.attempts.insert? a = some s'.attempts ∧ AttemptArrives s e s' a := by
  cases h with
  | idle h => exact Or.inl (attemptMoves_refl s h.attempts)
  | submit j seed h => exact Or.inl (attemptMoves_refl s h.attempts)
  | lease j t token bytes artifacts resumed h =>
      have hattempts := h.attempts
      cases resumed with
      | true => exact Or.inl (attemptMoves_refl s hattempts)
      | false =>
          obtain ⟨a, hjob, htask, -, htoken, hcost, hinsert⟩ := hattempts
          exact Or.inr ⟨a, hinsert, .worker t ⟨h.task, htask.symm, hjob.symm⟩ ⟨htoken, hcost⟩⟩
  | settle e t σ downloaded artifacts counted hblocked hfailed hqueued h =>
      exact Or.inl (attemptMoves_closed h.task.1 (Or.inl h.task.2) h.attempts)
  | drain jobId σ h => exact Or.inl (attemptMoves_refl s h.attempts)
  | expire e t σ counted hfailed h =>
      exact Or.inl (attemptMoves_closed h.task.1 (Or.inr h.task.2) h.attempts)
  | flag jobId now h => exact Or.inl (attemptMoves_refl s h.attempts)
  | close jobId state h => exact Or.inl (attemptMoves_refl s h.attempts)
  | discover e j parent child hrevived h => exact Or.inl (attemptMoves_refl s h.attempts)
  | plant child h => exact Or.inl (attemptMoves_refl s h.attempts)
  | recount jobId n h => exact Or.inl (attemptMoves_refl s h.attempts)
  | reserve e j t a route hunread h => exact Or.inr ⟨a, h.attempts, .provider j t route hunread h⟩
  | consume a released actual h =>
      refine Or.inl (attemptMoves_of_changed h.attempts fun b b' hb hid hto => ?_)
      obtain rfl := attempt_eq_of_id hb h.attempt.1 (of_decide_eq_true hid)
      exact ⟨⟨hto.1, hto.2.1, hto.2.2.1, hto.2.2.2.1, hto.2.2.2.2.1⟩,
        .consume actual h.attempt.2 h.cost hto.2.2.2.2.2.1 hto.2.2.2.2.2.2⟩

/-- A row of the new store comes from a row of the old one, or has arrived. -/
theorem Action.attempt_old {s : Store} {e : Event} {s' : Store} (h : Action s e s')
    {a' : Attempt} (ha' : a' ∈ s'.attempts) :
    (∃ a ∈ s.attempts, Attempt.terms a' = Attempt.terms a ∧ AttemptMove s a a') ∨
      AttemptArrives s e s' a' := by
  rcases h.attempts with hmoves | ⟨b, hinsert, harrives⟩
  · obtain ⟨a, ha, -, hmove⟩ := hmoves.mem_old ha'
    rcases hmove with ⟨-, hmove⟩ | ⟨hfalse, -⟩
    · exact Or.inl ⟨a, ha, hmove⟩
    · cases hfalse
  · rcases (Table.mem_of_insert? hinsert).mp ha' with ha | rfl
    · exact Or.inl ⟨a', ha, rfl, .keep rfl⟩
    · exact Or.inr harrives

/-- Every row of the old store lives on. -/
theorem Action.attempt_new {s : Store} {e : Event} {s' : Store} (h : Action s e s')
    {a : Attempt} (ha : a ∈ s.attempts) :
    ∃ a' ∈ s'.attempts, Attempt.terms a' = Attempt.terms a ∧ AttemptMove s a a' := by
  rcases h.attempts with hmoves | ⟨b, hinsert, -⟩
  · obtain ⟨a', ha', -, hmove⟩ := hmoves.mem_new ha
    rcases hmove with ⟨-, hmove⟩ | ⟨hfalse, -⟩
    · exact ⟨a', ha', hmove⟩
    · cases hfalse
  · exact ⟨a, (Table.mem_of_insert? hinsert).mpr (Or.inl ha), rfl, .keep rfl⟩

end Lifecycle

end CrawlTrove
