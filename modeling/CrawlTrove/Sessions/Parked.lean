import CrawlTrove.Invariants.Fencing
import CrawlTrove.Limits.WindingDown
import CrawlTrove.Sessions.Starting

/-!
# Parked tasks

A task that waits for a human is parked together with a live session, and only
that session can end or resume it. `Minds` is what every other transaction does
to the two: it parks nothing, a task that still waits keeps its live session,
and a session that has ended stays as it is. The sessions of a waiting task
move only by their own transactions, which end the task with them.
-/

namespace CrawlTrove

open Relational Transaction

open Lifecycle Protocol Limits

namespace Sessions

/-- A live session of the task ends no later than its job. -/
def Housed (t : Task) (s : Store) : Prop :=
  ∃ l ∈ s.sessions, l.taskId = t.id ∧ l.state.live = true ∧
    ∃ j ∈ s.jobs, j.id = t.jobId ∧ l.expiresAt ≤ j.deadlineAt

/-- Nothing is parked, what still waits keeps its session, deadlines stay, and
so do the sessions that have ended. -/
structure Minds (s s' : Store) : Prop where
  waiting : ∀ t' ∈ s'.tasks, t'.state = .waitingInput →
    ∃ t ∈ s.tasks, t.id = t'.id ∧ t.jobId = t'.jobId ∧ t.state = .waitingInput
  jobs : ∀ j ∈ s.jobs, ∃ j' ∈ s'.jobs, j'.id = j.id ∧ j'.deadlineAt = j.deadlineAt
  live : ∀ t' ∈ s'.tasks, t'.state = .waitingInput → ∀ l ∈ s.sessions, l.taskId = t'.id →
    l.state.live = true →
    ∃ l' ∈ s'.sessions, l'.taskId = l.taskId ∧ l'.state.live = true ∧ l'.expiresAt = l.expiresAt
  dead : ∀ l ∈ s.sessions, l.state.live = false → l ∈ s'.sessions

namespace Minds

variable {s s' s'' : Store}

/-- Where no session moves. -/
theorem of_sessions (hsessions : s'.sessions = s.sessions)
    (hwaiting : ∀ t' ∈ s'.tasks, t'.state = .waitingInput →
      ∃ t ∈ s.tasks, t.id = t'.id ∧ t.jobId = t'.jobId ∧ t.state = .waitingInput)
    (hjobs : ∀ j ∈ s.jobs, ∃ j' ∈ s'.jobs, j'.id = j.id ∧ j'.deadlineAt = j.deadlineAt) :
    Minds s s' where
  waiting := hwaiting
  jobs := hjobs
  live _ _ _ l hl _ hlive := ⟨l, hsessions.symm ▸ hl, rfl, hlive, rfl⟩
  dead _ hl _ := hsessions.symm ▸ hl

instance : Std.Refl Minds where
  refl _ := of_sessions rfl (fun t ht hstate => ⟨t, ht, rfl, rfl, hstate⟩)
    fun j hj => ⟨j, hj, rfl, rfl⟩

theorem trans (h : Minds s s') (h' : Minds s' s'') : Minds s s'' where
  waiting t'' ht'' hstate := by
    obtain ⟨t', ht', hid', hjob', hstate'⟩ := h'.waiting t'' ht'' hstate
    obtain ⟨t, ht, hid, hjob, hwaits⟩ := h.waiting t' ht' hstate'
    exact ⟨t, ht, hid.trans hid', hjob.trans hjob', hwaits⟩
  jobs j hj := by
    obtain ⟨j', hj', hid, hdeadline⟩ := h.jobs j hj
    obtain ⟨j'', hj'', hid', hdeadline'⟩ := h'.jobs j' hj'
    exact ⟨j'', hj'', hid'.trans hid, hdeadline'.trans hdeadline⟩
  live t'' ht'' hstate l hl htask hlive := by
    obtain ⟨t', ht', hid', -, hstate'⟩ := h'.waiting t'' ht'' hstate
    obtain ⟨l', hl', htask', hlive', hexpires'⟩ :=
      h.live t' ht' hstate' l hl (htask.trans hid'.symm) hlive
    obtain ⟨l'', hl'', htask'', hlive'', hexpires''⟩ :=
      h'.live t'' ht'' hstate l' hl' (htask'.trans htask) hlive'
    exact ⟨l'', hl'', htask''.trans htask', hlive'', hexpires''.trans hexpires'⟩
  dead l hl hdead := h'.dead l (h.dead l hl hdead) hdead

instance : IsTrans Store Minds := ⟨fun _ _ _ => trans⟩

/-- What queues nothing, parks nothing. -/
theorem of_winds {exempt : Uuid → Prop} (h : WindsBut exempt s s') : Minds s s' := by
  refine of_sessions h.sessions (fun t' ht' hstate => ?_) h.jobs
  obtain ⟨t, ht, hid, hjob, hsame⟩ := h.queued t' ht' (by rw [hstate]; rfl)
  exact ⟨t, ht, hid, hjob, hsame.trans hstate⟩

/-- A task that waits on is housed as before. -/
theorem housed (h : Minds s s') {t t' : Task} (ht' : t' ∈ s'.tasks)
    (hstate : t'.state = .waitingInput) (hid : t.id = t'.id) (hjob : t.jobId = t'.jobId)
    (hhoused : Housed t s) : Housed t' s' := by
  obtain ⟨l, hl, htask, hlive, j, hj, hjid, hexpires⟩ := hhoused
  obtain ⟨l', hl', htask', hlive', hexpires'⟩ :=
    h.live t' ht' hstate l hl (htask.trans hid) hlive
  obtain ⟨j', hj', hjid', hdeadline⟩ := h.jobs j hj
  refine ⟨l', hl', (htask'.trans htask).trans hid, hlive', j', hj', ?_, ?_⟩
  · exact (hjid'.trans hjid).trans hjob
  · rw [hexpires', hdeadline]
    exact hexpires

/-! ## Statements -/

/-- Stores that differ in the columns of some tasks, none of which it parks. -/
theorem of_tasks {p : Task → Bool} {f : Task → Task}
    (htasks : s'.tasks.rows = s.tasks.rows.map fun t => if p t then f t else t)
    (hjobs : s'.jobs = s.jobs) (hsessions : s'.sessions = s.sessions)
    (hf : ∀ t, (f t).state ≠ .waitingInput) : Minds s s' := by
  refine of_sessions hsessions (fun t' ht' hstate => ?_) fun j hj => ⟨j, hjobs ▸ hj, rfl, rfl⟩
  rw [Table.mem_def, htasks] at ht'
  obtain ⟨t, ht, hrow⟩ := List.mem_map.mp ht'
  by_cases hp : p t = true
  · rw [if_pos hp] at hrow
    exact absurd (hrow ▸ hstate) (hf t)
  · rw [if_neg hp] at hrow
    exact ⟨t, ht, by rw [hrow], by rw [hrow], hrow ▸ hstate⟩

theorem insertTask {t : Task} (hstate : t.state = .pending) (s s' : Store)
    (h : s.insertTask t = some s') : Minds s s' := by
  obtain ⟨-, T, hT, rfl⟩ := insertTask_eq_some.mp h
  refine of_sessions rfl (fun t' ht' hwaits => ?_) fun j hj => ⟨j, hj, rfl, rfl⟩
  rcases (Table.mem_of_insert? hT).mp ht' with hmem | rfl
  · exact ⟨t', hmem, rfl, rfl, hwaits⟩
  · rw [hstate] at hwaits
    cases hwaits

theorem insertJob {j : Job} (s s' : Store) (h : s.insertJob j = some s') : Minds s s' := by
  obtain ⟨T, hT, rfl⟩ := Option.map_eq_some_iff.mp h
  refine of_sessions rfl (fun t ht hwaits => ⟨t, ht, rfl, rfl, hwaits⟩) fun k hk => ?_
  exact ⟨k, (Table.mem_of_insert? hT).mpr (Or.inl hk), rfl, rfl⟩

theorem kept {p : LiveSession → Bool} {state : SessionState} {l : LiveSession}
    (hl : l ∈ s.sessions) (hp : p l = false) : l ∈ (CrawlTrove.setSessions p state s).sessions :=
  Table.mem_update_other (f := fun l : LiveSession => { l with state }) (fun _ => rfl) hl hp

theorem moved {p : LiveSession → Bool} {state : SessionState} {l : LiveSession}
    (hl : l ∈ s.sessions) (hp : p l = true) :
    { l with state } ∈ (CrawlTrove.setSessions p state s).sessions :=
  Table.mem_update_row (f := fun l : LiveSession => { l with state }) (fun _ => rfl) hl hp

/-- A change of some live sessions that keeps them alive, or none of whose
tasks waits. -/
theorem setSessions {p : LiveSession → Bool} {state : SessionState} {s : Store}
    (h : ∀ l ∈ s.sessions, p l = true → l.state.live = true ∧ (state.live = true ∨
      ∀ t ∈ s.tasks, t.id = l.taskId → t.state ≠ .waitingInput)) :
    Minds s (setSessions p state s) where
  waiting t ht hstate := ⟨t, ht, rfl, rfl, hstate⟩
  jobs j hj := ⟨j, hj, rfl, rfl⟩
  live t ht hstate l hl htask hlive := by
    cases hp : p l with
    | false => exact ⟨l, kept hl hp, rfl, hlive, rfl⟩
    | true =>
        refine ⟨_, moved hl hp, rfl, ?_, rfl⟩
        exact (h l hl hp).2.resolve_right fun hnone => hnone t ht htask.symm hstate
  dead l hl hdead := by
    cases hp : p l with
    | false => exact kept hl hp
    | true =>
        rw [(h l hl hp).1] at hdead
        cases hdead

end Minds

/-! ## Transactions that move no session -/

section Transactions

variable {url : UrlIdentity}

theorem winds_minds {α : Type} {m : Tx α} (h : Steps WindsDown m) : Steps Minds m :=
  h.mono fun _ _ => Minds.of_winds

theorem exec_minds {f : Store → Store} (h : ∀ s, WindsDown s (f s)) (s : Store) : Minds s (f s) :=
  Minds.of_winds (h s)

theorem tables_minds {s s' : Store} (hjobs : s'.jobs = s.jobs) (htasks : s'.tasks = s.tasks)
    (hsessions : s'.sessions = s.sessions) : Minds s s' := by
  have hwinds : WindsDown s s' := WindsBut.of_tables hjobs htasks hsessions
  exact Minds.of_winds hwinds

theorem insertUsage_minds {u : Usage} (s s' : Store) (h : s.insertUsage u = some s') :
    Minds s s' := by
  obtain ⟨T, -, rfl⟩ := Option.map_eq_some_iff.mp h
  exact tables_minds rfl rfl rfl

theorem insertUsageRows_minds (jobId : Uuid)
    (rows : List (Provider × Meter × {limit : ℚ // 0 ≤ limit})) :
    Steps Minds (insertUsageRows jobId rows) := by
  induction rows with
  | nil => exact Steps.pure _
  | cons row rows ih => exact attempt_bind_steps insertUsage_minds ih

theorem submitJob_minds (x : Txn) (config : CrawlConfig) (key : Option String) :
    Steps Minds (submitJob url x config key) := by
  unfold submitJob
  refine Steps.read_bind fun found => ?_
  cases found with
  | some existing => exact Steps.pure _
  | none =>
      refine attempt_bind_steps Minds.insertJob ?_
      refine (insertUsageRows_minds ..).bind fun _ => ?_
      refine attempt_bind_steps (Minds.insertTask rfl) ?_
      exact exec_bind_steps (exec_minds (ensureOrigin_winds _ _)) (Steps.pure _)

theorem insertTaskOnce_minds {t : Task} (hstate : t.state = .pending) :
    Steps Minds (insertTaskOnce t) := by
  unfold insertTaskOnce
  refine Steps.read_bind fun found => Steps.ite (Steps.pure _) ?_
  exact attempt_bind_steps (Minds.insertTask hstate) (Steps.pure _)

theorem insertRetries_minds (x : Txn) (config : CrawlConfig) (jobId : Uuid) (rows : List String)
    (draw : ℕ) (sequence : ℤ) :
    Steps Minds (insertRetries url x config jobId rows draw sequence) := by
  induction rows generalizing draw sequence with
  | nil => exact Steps.pure _
  | cons original rows ih =>
      unfold insertRetries
      refine exec_bind_steps (exec_minds (ensureOrigin_winds _ _)) ?_
      exact (insertTaskOnce_minds (by rfl)).bind fun _ => ih ..

theorem populateRetries_minds (x : Txn) (config : CrawlConfig) (jobId : Uuid)
    (rows : List String) : Steps Minds (populateRetries url x config jobId rows) := by
  unfold populateRetries
  refine (insertRetries_minds ..).bind fun _ => exec_bind_steps (exec_minds fun _ => ?_) ?_
  · exact WindsBut.of_jobs rfl rfl rfl (fun _ => ⟨rfl, rfl⟩) fun _ _ _ => ⟨rfl, rfl⟩
  · exact Steps.pure _

theorem insertResult_minds {r : CrawlResult} (s s' : Store) (h : s.insertResult r = some s') :
    Minds s s' := by
  obtain ⟨T, -, rfl⟩ := Option.map_eq_some_iff.mp h
  exact tables_minds rfl rfl rfl

theorem insertLinks_minds (x : Txn) (f : FencedTask) (remaining : ℤ) (urls : List String)
    (draw : ℕ) (accepted : ℤ) :
    Steps Minds (insertLinks url x f remaining urls draw accepted) := by
  induction urls generalizing draw accepted with
  | nil => exact Steps.pure _
  | cons original urls ih =>
      unfold insertLinks
      refine Steps.ite (Steps.pure _) (Steps.ite (ih ..) ?_)
      exact (insertTaskOnce_minds (by rfl)).bind fun _ => ih ..

theorem insertDiscovered_minds (x : Txn) (f : FencedTask) (urls : List String) :
    Steps Minds (insertDiscovered url x f urls) := by
  unfold insertDiscovered
  refine Steps.ite (Steps.pure _) (Steps.ite (Steps.pure _) ?_)
  refine (insertLinks_minds ..).bind fun accepted => Steps.ite ?_ (Steps.pure _)
  refine Steps.exec (exec_minds fun _ => ?_)
  exact WindsBut.of_jobs rfl rfl rfl (fun _ => ⟨rfl, rfl⟩) fun _ _ _ => ⟨rfl, rfl⟩

theorem activeLease_minds (x : Txn) (taskId token : Uuid) :
    Steps Minds (activeLease x taskId token) := winds_minds (activeLease_winds ..)

theorem completeTask_minds (x : Txn) (taskId token : Uuid) (result : TaskResult) :
    Steps Minds (completeTask url x taskId token result) := by
  unfold completeTask
  refine (activeLease_minds ..).bind fun found => ?_
  cases found with
  | none => exact Steps.pure _
  | some f =>
      refine Steps.ite ?_ (Steps.read_bind fun _ => Steps.ite (Steps.pure _) ?_)
      · exact exec_bind_steps (exec_minds (rejectOverBudget_winds x f _ _)) (Steps.pure _)
      · refine attempt_bind_steps insertResult_minds ((insertDiscovered_minds ..).bind fun _ => ?_)
        exact exec_bind_steps (exec_minds (settleCompleted_winds x f _ _ _)) (Steps.pure _)

theorem requeueTask_minds (f : FencedTask) (availableAt : Time) (errorClass errorCode : String)
    (s : Store) : Minds s (requeueTask f availableAt errorClass errorCode s) := by
  refine Minds.of_tasks rfl rfl rfl fun t hstate => ?_
  cases hstate

theorem requeue_minds (x : Txn) (f : FencedTask) (decision : FailureDecision) (availableAt : Time)
    (metadata : Metadata) (s : Store) :
    Minds s (requeue x f decision availableAt metadata s) := by
  have hrest : WindsDown _ _ := requeue_winds x f decision availableAt metadata s
  exact (requeueTask_minds ..).trans (Minds.of_winds hrest)

theorem retryTask_minds (x : Txn) (taskId token : Uuid) (decision : FailureDecision)
    (availableAt : Time) (metadata : Metadata) :
    Steps Minds (retryTask x taskId token decision availableAt metadata) := by
  unfold retryTask
  refine (activeLease_minds ..).bind fun found => ?_
  cases found with
  | none => exact Steps.pure _
  | some f =>
      refine Steps.ite ?_ ?_
      · exact exec_bind_steps (exec_minds (failPermanently_winds x f _ _)) (Steps.pure _)
      · exact exec_bind_steps (requeue_minds x f _ _ _) (Steps.pure _)

theorem reconcileAbandoned_winds (x : Txn) (only : Option Uuid) :
    Steps WindsDown (reconcileAbandoned x only) := reconcileAbandoned_steps ledger_winds x only

theorem reapLease_minds (x : Txn) (lease : Uuid × Option Uuid) : Steps Minds (reapLease x lease) := by
  unfold reapLease
  refine Steps.read_bind fun found => ?_
  cases found with
  | none => exact Steps.pure _
  | some f =>
      have hreject : Steps WindsDown (rejectInactiveLease x f) :=
        rejectInactiveLease_steps ledger_winds terminalize_winds x f
      refine (winds_minds hreject).bind fun rejected => Steps.ite (Steps.pure _) ?_
      refine Steps.ite ?_ ?_
      · exact exec_bind_steps (exec_minds fun s => terminalize_winds _ _ _ _ _ s rfl) (Steps.pure _)
      · refine exec_bind_steps (fun s => ?_) (Steps.pure _)
        have hrest : WindsDown _ _ := requeueReaped_winds x f s
        exact (requeueTask_minds ..).trans (Minds.of_winds hrest)

theorem reapLeases_minds (x : Txn) (leases : List (Uuid × Option Uuid)) (reaped : ℕ) :
    Steps Minds (reapLeases x leases reaped) := by
  induction leases generalizing reaped with
  | nil => exact Steps.pure _
  | cons lease leases ih => exact (reapLease_minds ..).bind fun _ => ih _

theorem reapExpiredLeases_minds (x : Txn) : Steps Minds (reapExpiredLeases x) :=
  (winds_minds (reconcileAbandoned_winds ..)).bind fun _ =>
    Steps.read_bind fun _ => reapLeases_minds ..

/-! ## The worker protocol -/

theorem failRows_minds (x : Txn) (task : Task) (token : Uuid) (errorClass errorCode : String)
    (used : ℤ) (s : Store) :
    Minds s (WorkerApi.failRows x task token errorClass errorCode used s) := by
  have hrows : WindsBut (fun _ => True) _ _ :=
    failRows_winds x task token errorClass errorCode used s trivial
  exact Minds.of_winds hrows

theorem fail_minds (x : Txn) (role : String) (taskId token : Uuid) (errorClass errorCode : String)
    (metadata : Metadata) :
    Steps Minds (WorkerApi.fail x role taskId token errorClass errorCode metadata) := by
  unfold WorkerApi.fail
  refine (identity_steps ..).bind fun worker => Steps.read_bind fun found => ?_
  cases found with
  | none => exact Steps.pure _
  | some task =>
      refine (castInt_steps ..).bind fun reported => ?_
      refine exec_bind_steps (fun s => ?_) (Steps.pure _)
      exact failRows_minds x task token errorClass errorCode (WorkerApi.usedBytes task reported) s

/-- The row a worker puts back. -/
theorem settleRow_minds (taskId : Uuid) {set : Task → Task}
    {hset : ∀ t, Keyed.key (set t) = Keyed.key t} (s : Store)
    (h : ∀ t, (set t).state = .retryWait) : Minds s (WorkerApi.settleRow taskId set hset s) := by
  refine Minds.of_tasks rfl rfl rfl fun t hstate => ?_
  rw [h t.unlease] at hstate
  cases hstate

theorem requeueRows_minds (x : Txn) (task : Task) (token : Uuid) (errorClass errorCode : String)
    (availableAt : Time) (used : ℤ) (s : Store) :
    Minds s (WorkerApi.requeueRows x task token errorClass errorCode availableAt used s) := by
  obtain ⟨set, hset, hstate, hrest⟩ := requeueRows_winds x task token
    errorClass errorCode availableAt used s
  exact (settleRow_minds task.id s hstate).trans (Minds.of_winds hrest)

theorem releaseRows_minds (x : Txn) (task : Task) (token : Uuid) (s : Store) :
    Minds s (WorkerApi.releaseRows x task token s) := by
  obtain ⟨set, hset, hstate, hrest⟩ := releaseRows_winds x task token s
  exact (settleRow_minds task.id s hstate).trans (Minds.of_winds hrest)

theorem retry_minds (x : Txn) (role : String) (taskId token : Uuid)
    (errorClass errorCode : String) (availableAt : Time) (metadata : Metadata) :
    Steps Minds
      (WorkerApi.retry x role taskId token errorClass errorCode availableAt metadata) := by
  unfold WorkerApi.retry
  refine (identity_steps ..).bind fun worker => Steps.read_bind fun found => ?_
  cases found with
  | none => exact Steps.pure _
  | some task =>
      refine (castInt_steps ..).bind fun reported => Steps.ite ?_ ?_
      · exact exec_bind_steps (failRows_minds x task token _ _ _) (Steps.pure _)
      · exact exec_bind_steps (requeueRows_minds x task token _ _ _ _) (Steps.pure _)

theorem release_minds (x : Txn) (role : String) (taskId token : Uuid) :
    Steps Minds (WorkerApi.release x role taskId token) := by
  unfold WorkerApi.release
  refine (identity_steps ..).bind fun worker => Steps.read_bind fun found => ?_
  cases found with
  | none => exact Steps.pure _
  | some task => exact exec_bind_steps (releaseRows_minds x task token) (Steps.pure _)

theorem remote_insertLinks_minds (x : Txn) (f : FencedTask) (links : List WorkerApi.RemoteLink)
    (draw : ℕ) : Steps Minds (WorkerApi.insertLinks x f links draw) := by
  induction links generalizing draw with
  | nil => exact Steps.pure _
  | cons link links ih =>
      unfold WorkerApi.insertLinks
      refine Steps.read_bind fun found => ?_
      cases found with
      | none => exact Steps.pure _
      | some job =>
          refine Steps.ite ?_ (ih ..)
          split
          · refine (insertTaskOnce_minds (by rfl)).bind fun inserted => ?_
            refine Steps.ite (exec_bind_steps (exec_minds fun _ => ?_) (ih ..)) (ih ..)
            exact WindsBut.of_jobs rfl rfl rfl (fun _ => ⟨rfl, rfl⟩) fun _ _ _ => ⟨rfl, rfl⟩
          · exact Steps.raise _

theorem complete_minds (x : Txn) (role : String) (taskId token : Uuid)
    (artifact : WorkerApi.ArtifactRef) (report : WorkerApi.Report) :
    Steps Minds (WorkerApi.complete x role taskId token artifact report) := by
  unfold WorkerApi.complete
  refine (identity_steps ..).bind fun worker => Steps.read_bind fun found => ?_
  cases found with
  | none => exact Steps.pure _
  | some f =>
      refine (castInt_steps ..).bind fun size => (castInt_steps ..).bind fun cast => ?_
      refine Steps.ite (Steps.pure _) (Steps.ite (Steps.raise _) (Steps.read_bind fun _ => ?_))
      refine Steps.ite (Steps.pure _) (attempt_bind_steps insertResult_minds ?_)
      refine exec_bind_steps (exec_minds (completeRows_winds x f _ _)) ?_
      exact (remote_insertLinks_minds ..).bind fun _ => Steps.pure _

end Transactions

/-! ## Transactions that move sessions -/

section Moving

variable {url : UrlIdentity} {s : Store}

theorem attachable_live {now : Time} {id : Uuid} {l : LiveSession}
    (hp : attachable now id l = true) : l.state.live = true := by
  simp only [attachable, Bool.and_eq_true, Bool.or_eq_true, decide_eq_true_eq] at hp
  rcases hp.1.2 with hwaiting | hconnected
  · rw [hwaiting]
    rfl
  · rw [hconnected]
    rfl

/-- Sessions that are waiting or connected and stay alive. -/
theorem attachable_minds (now : Time) (id : Uuid) {state : SessionState}
    (hstate : state.live = true) (s : Store) :
    Minds s (setSessions (attachable now id) state s) :=
  Minds.setSessions fun _ _ hp => ⟨attachable_live hp, Or.inl hstate⟩

/-- `close_completed`, after the task of the session has succeeded. -/
theorem closeCompleted_minds {id : Uuid}
    (hdone : ∀ l ∈ s.sessions, l.id = id → ∀ t ∈ s.tasks, t.id = l.taskId → t.state = .succeeded) :
    Minds s (closeCompleted id s) := by
  refine Minds.setSessions fun l hl hp => ?_
  simp only [Bool.and_eq_true, decide_eq_true_eq] at hp
  refine ⟨by rw [hp.2]; rfl, Or.inr fun t ht htask hwaits => ?_⟩
  rw [hdone l hl hp.1 t ht htask] at hwaits
  cases hwaits

theorem touchLiveSession_minds (x : Txn) (role : String) (id : Uuid) :
    Steps Minds (WorkerApi.touchLiveSession x role id) := by
  unfold WorkerApi.touchLiveSession
  refine (identity_steps ..).bind fun worker => Steps.read_bind fun _ => ?_
  refine exec_bind_steps (fun s => Minds.setSessions fun l _ hp => ⟨?_, Or.inl rfl⟩) (Steps.pure _)
  simp only [Bool.and_eq_true] at hp
  exact attachable_live hp.1

theorem finishLiveSession_minds (role : String) (id : Uuid) :
    Steps Minds (WorkerApi.finishLiveSession role id) := by
  intro s b s' h
  unfold WorkerApi.finishLiveSession at h
  obtain ⟨worker, s₁, hworker, h⟩ := bind_ok.mp h
  have hidentity : Minds s s₁ := (identity_steps role true) hworker
  simp only [bind_ok, read_ok, exec_ok, pure_ok] at h
  obtain ⟨done, _, ⟨rfl, rfl⟩, ok, _, ⟨-, rfl⟩, _, _, rfl, -, rfl⟩ := h
  refine hidentity.trans (Minds.setSessions fun l _ hp => ?_)
  simp only [Bool.and_eq_true, decide_eq_true_eq, Table.any_eq_true] at hp
  obtain ⟨⟨-, hresuming⟩, u, hu, hutask, hsucceeded⟩ := hp
  refine ⟨by rw [hresuming]; rfl, Or.inr fun t ht htask hwaits => ?_⟩
  rw [task_eq_of_id ht hu (htask.trans hutask.symm), hsucceeded] at hwaits
  cases hwaits

/-- The one session with this id ends, and its task waits no longer. -/
theorem setSession_minds {session : LiveSession} {state : SessionState}
    (hsession : session ∈ s.sessions) (hlive : session.state.live = true)
    (hended : ∀ t ∈ s.tasks, t.id = session.taskId → t.state ≠ .waitingInput) :
    Minds s (setSession session.id state s) := by
  refine Minds.setSessions fun l hl hp => ?_
  have hsame : l = session := Table.eq_of_clash hl hsession
    (by simp [Clashes, Keyed.clash, Keyed.key, of_decide_eq_true hp])
  rw [hsame]
  exact ⟨hlive, Or.inr hended⟩

/-- The task of the session gets the state its end asks for. -/
theorem endSessionTask_ends (now : Time) (task : Task) (reason : CloseReason) (s : Store) :
    ∀ t ∈ (endSessionTask now task reason s).tasks, t.id = task.id → t.state = reason.task := by
  intro t ht hid
  have hrows : t ∈ (endSessionTask now task reason s).tasks.rows := ht
  obtain ⟨u, -, hrow⟩ := List.mem_map.mp hrows
  by_cases hu : u.id = task.id
  · rw [if_pos (by simpa using hu)] at hrow
    rw [← hrow]
  · rw [if_neg (by simpa using hu)] at hrow
    exact absurd (hrow ▸ hid) hu

/-- Closing the session of a task that waits ends the task. -/
theorem closeTask_ends (now : Time) {task : Task} (reason : CloseReason) (owned : Bool)
    (htask : task ∈ s.tasks) :
    ∀ t ∈ (closeTask now task reason owned s).tasks, t.id = task.id → t.state ≠ .waitingInput := by
  intro t ht hid
  have hreason : reason.task ≠ .waitingInput := by
    rcases reason.task_cases with h | h <;> rw [h] <;> exact fun h => nomatch h
  unfold closeTask at ht
  split at ht
  · rw [endSessionTask_ends _ _ _ _ t ht hid]
    exact hreason
  · rename_i hnot
    split at ht
    · rw [endSessionTask_ends _ _ _ _ t ht hid]
      exact hreason
    · rw [task_eq_of_id ht htask hid]
      exact hnot

theorem closeTask_minds (now : Time) (task : Task) (reason : CloseReason) (owned : Bool)
    (s : Store) : Minds s (closeTask now task reason owned s) := by
  have hclose : WindsBut (fun _ => True) s (closeTask now task reason owned s) :=
    closeTask_winds now task reason owned s fun _ => trivial
  exact Minds.of_winds hclose

/-- What both halves do once they have found a live session. -/
theorem closeFound_minds (now : Time) {session : LiveSession} {task : Task} (reason : CloseReason)
    (owned : Bool) (hsession : session ∈ s.sessions) (hlive : session.state.live = true)
    (htask : task ∈ s.tasks) (hid : task.id = session.taskId) :
    Minds s (setSession session.id reason.session (closeTask now task reason owned s)) := by
  have hsessions : (closeTask now task reason owned s).sessions = s.sessions := by
    have hclose : WindsBut (fun _ => True) s (closeTask now task reason owned s) :=
      closeTask_winds now task reason owned s fun _ => trivial
    exact hclose.sessions
  refine (closeTask_minds now task reason owned s).trans ?_
  refine setSession_minds (hsessions.symm ▸ hsession) hlive fun t ht htid => ?_
  exact closeTask_ends now reason owned htask t ht (htid.trans hid.symm)

/-- The session of a task that has succeeded. -/
theorem closeSucceeded_minds {session : LiveSession} {task : Task} {state : SessionState}
    (hsession : session ∈ s.sessions) (hlive : session.state.live = true)
    (htask : task ∈ s.tasks) (hid : task.id = session.taskId) (hdone : task.state = .succeeded) :
    Minds s (setSession session.id state s) := by
  refine setSession_minds hsession hlive fun t ht htid hwaits => ?_
  rw [task_eq_of_id ht htask (htid.trans hid.symm), hdone] at hwaits
  cases hwaits

/-- The session of a task that does not exist. -/
theorem closeOrphan_minds {session : LiveSession} {state : SessionState}
    (hsession : session ∈ s.sessions) (hlive : session.state.live = true)
    (hnone : s.task? session.taskId = none) : Minds s (setSession session.id state s) := by
  refine setSession_minds hsession hlive fun t ht htid _ => ?_
  rw [Store.task?_eq_some.mpr ⟨ht, htid⟩] at hnone
  cases hnone

theorem closeSession_minds (x : Txn) (id : Uuid) (reason : CloseReason) (workerId : Option String) :
    Steps Minds (closeSession x id reason workerId) := by
  intro s b s' h
  unfold closeSession at h
  split at h
  · exact (raise_ok.mp h).elim
  simp only [bind_ok, read_ok] at h
  obtain ⟨found, _, ⟨hfound, rfl⟩, h⟩ := h
  cases found with
  | none =>
      obtain ⟨-, rfl⟩ := pure_ok.mp h
      exact refl_of Minds s
  | some session =>
      obtain ⟨hsession, hp⟩ := Table.find?_eq_some hfound
      simp only [Bool.and_eq_true, decide_eq_true_eq] at hp
      obtain ⟨rfl, hlive⟩ := hp
      simp only [bind_ok, read_ok] at h
      obtain ⟨found, _, ⟨htask, rfl⟩, h⟩ := h
      cases found with
      | none =>
          simp only [bind_ok, exec_ok, pure_ok] at h
          obtain ⟨_, _, rfl, -, rfl⟩ := h
          exact closeOrphan_minds hsession hlive htask
      | some task =>
          obtain ⟨hmem, hid⟩ := Store.task?_eq_some.mp htask
          simp only at h
          split at h
          · rename_i hdone
            simp only [bind_ok, exec_ok, pure_ok] at h
            obtain ⟨_, _, rfl, -, rfl⟩ := h
            exact closeSucceeded_minds hsession hlive hmem hid hdone
          · simp only [bind_ok, exec_ok, pure_ok] at h
            obtain ⟨_, _, rfl, _, _, rfl, -, rfl⟩ := h
            exact closeFound_minds _ reason _ hsession hlive hmem hid

theorem closeLiveSession_minds (x : Txn) (role : String) (id : Uuid) (reason : CloseReason) :
    Steps Minds (WorkerApi.closeLiveSession x role id reason) := by
  unfold WorkerApi.closeLiveSession
  refine (identity_steps ..).bind fun worker => Steps.ite (Steps.raise _) ?_
  intro s b s' h
  simp only [bind_ok, read_ok] at h
  obtain ⟨found, _, ⟨hfound, rfl⟩, h⟩ := h
  cases found with
  | none =>
      obtain ⟨-, rfl⟩ := pure_ok.mp h
      exact refl_of Minds s
  | some session =>
      obtain ⟨hsession, hp⟩ := Table.find?_eq_some hfound
      simp only [Bool.and_eq_true, decide_eq_true_eq] at hp
      obtain ⟨⟨rfl, -⟩, hlive⟩ := hp
      simp only [bind_ok, read_ok] at h
      obtain ⟨found, _, ⟨htask, rfl⟩, h⟩ := h
      cases found with
      | none =>
          simp only [bind_ok, exec_ok, pure_ok] at h
          obtain ⟨_, _, rfl, -, rfl⟩ := h
          exact closeOrphan_minds hsession hlive htask
      | some task =>
          obtain ⟨hmem, hid⟩ := Store.task?_eq_some.mp htask
          simp only at h
          split at h
          · rename_i hdone
            simp only [bind_ok, exec_ok, pure_ok] at h
            obtain ⟨_, _, rfl, -, rfl⟩ := h
            exact closeSucceeded_minds hsession hlive hmem hid hdone
          · simp only [bind_ok, exec_ok, pure_ok, remote_closeTask_eq] at h
            obtain ⟨_, _, rfl, _, _, rfl, -, rfl⟩ := h
            exact closeFound_minds _ reason _ hsession hlive hmem hid

/-- The queued tasks of a cancelled job, once cancelled, wait no longer. -/
theorem cancelQueued_ends (now : Time) (jobId : Uuid) {u : Task} (hu : u ∈ s.tasks)
    (hp : (decide (u.jobId = jobId) && u.state.queued) = true) :
    ∀ t ∈ (cancelQueued now jobId s).tasks, t.id = u.id → t.state ≠ .waitingInput := by
  intro t ht hid
  have hrows : t ∈ (cancelQueued now jobId s).tasks.rows := ht
  obtain ⟨v, hv, hrow⟩ := List.mem_map.mp hrows
  by_cases hq : (decide (v.jobId = jobId) && v.state.queued) = true
  · rw [if_pos hq] at hrow
    rw [← hrow]
    exact fun h => nomatch h
  · rw [if_neg hq] at hrow
    have hsame : v = u := task_eq_of_id hv hu (hrow ▸ hid)
    exact absurd (hsame ▸ hp) hq

theorem cancelSessions_minds {cancelled : List Uuid}
    (hended : ∀ id ∈ cancelled, ∀ t ∈ s.tasks, t.id = id → t.state ≠ .waitingInput) :
    Minds s (cancelSessions cancelled s) := by
  refine Minds.setSessions fun l _ hp => ?_
  simp only [Bool.and_eq_true, List.contains_iff_mem] at hp
  exact ⟨hp.2, Or.inr (hended l.taskId hp.1)⟩

theorem requestCancel_minds (x : Txn) (jobId : Uuid) : Steps Minds (requestCancel x jobId) := by
  intro s b s' h
  simp only [requestCancel, bind_ok, read_ok] at h
  obtain ⟨found, _, ⟨-, rfl⟩, h⟩ := h
  cases found with
  | none =>
      obtain ⟨-, rfl⟩ := pure_ok.mp h
      exact refl_of Minds s
  | some job =>
      simp only at h
      split at h
      · obtain ⟨-, rfl⟩ := pure_ok.mp h
        exact refl_of Minds s
      · simp only [bind_ok, read_ok, exec_ok, pure_ok] at h
        obtain ⟨cancelled, _, ⟨hids, rfl⟩, _, _, rfl, _, _, rfl, _, _, rfl, _, s₂, h₂, -, rfl⟩ := h
        have hcancel : WindsDown s (cancelQueued x.now jobId s) := cancelQueued_winds ..
        have hflag : WindsDown (cancelSessions cancelled (cancelQueued x.now jobId s)) s₂ :=
          WindsBut.trans (cancelJob_winds ..) (reconcileAbandoned_winds x none h₂)
        refine (Minds.of_winds hcancel).trans (Minds.trans ?_ (Minds.of_winds hflag))
        refine cancelSessions_minds fun id hid t ht htask => ?_
        rw [← hids] at hid
        obtain ⟨u, hu, rfl⟩ := List.mem_map.mp hid
        obtain ⟨hmem, hqueued⟩ := Table.mem_select.mp hu
        exact cancelQueued_ends x.now jobId hmem hqueued t ht htask

/-! ## Expiry -/

/-- One expired session ends its task if that still waits. -/
theorem expireSession_winds (x : Txn) (session : LiveSession) (s : Store) :
    WindsBut (fun _ => True) s (expireSession x session s) := by
  unfold expireSession
  split
  · exact refl_of _ s
  · rename_i task htask
    split
    · exact refl_of _ s
    · have hended : WindsBut (fun _ => True) s <| s.updateTasks
          (fun t => t.id = task.id && t.state = .waitingInput) fun t =>
          { t with
            state := .permanentFailed
            errorClass := some "transport"
            errorCode := some "human_input_timeout"
            finishedAt := some x.now } := by
        refine WindsBut.of_tasks rfl rfl rfl (fun _ => ⟨rfl, rfl⟩) fun t _ hqueued => ?_
        cases hqueued
      exact hended.trans (WindsBut.of_jobs rfl rfl rfl (fun _ => ⟨rfl, rfl⟩)
        fun _ _ hnot => absurd trivial hnot)

theorem expireSession_ends (x : Txn) (session : LiveSession) (s : Store) :
    ∀ t ∈ (expireSession x session s).tasks, t.id = session.taskId →
      t.state ≠ .waitingInput := by
  intro t ht hid
  unfold expireSession at ht
  cases hfound : s.task? session.taskId with
  | none =>
      rw [hfound] at ht
      rw [Store.task?_eq_some.mpr ⟨ht, hid⟩] at hfound
      cases hfound
  | some task =>
      obtain ⟨hmem, htid⟩ := Store.task?_eq_some.mp hfound
      rw [hfound] at ht
      dsimp only at ht
      split at ht
      · rename_i hnot
        rw [task_eq_of_id ht hmem (hid.trans htid.symm)]
        exact hnot
      · obtain ⟨u, -, hrow⟩ := List.mem_map.mp ht
        by_cases hu : (decide (u.id = task.id) && decide (u.state = .waitingInput)) = true
        · rw [if_pos hu] at hrow
          rw [← hrow]
          intro hwaits
          cases hwaits
        · rw [if_neg hu] at hrow
          subst hrow
          simpa [hid.trans htid.symm] using hu

/-- Afterwards no task of an expired session waits. -/
theorem expireSessions_ends (x : Txn) (rows : List LiveSession) (s : Store) :
    WindsBut (fun _ => True) s (rows.foldl (fun s l => expireSession x l s) s) ∧
      ∀ l ∈ rows, ∀ t ∈ (rows.foldl (fun s l => expireSession x l s) s).tasks,
        t.id = l.taskId → t.state ≠ .waitingInput := by
  induction rows generalizing s with
  | nil => exact ⟨refl_of _ s, fun l hl => nomatch hl⟩
  | cons l rows ih =>
      obtain ⟨hwinds, hended⟩ := ih (expireSession x l s)
      refine ⟨(expireSession_winds x l s).trans hwinds, fun k hk t ht hid hwaits => ?_⟩
      rcases List.mem_cons.mp hk with rfl | hk
      · obtain ⟨u, hu, huid, -, hstate⟩ := hwinds.queued t ht (by rw [hwaits]; rfl)
        exact expireSession_ends x k s u hu (huid.trans hid) (hstate.trans hwaits)
      · exact hended k hk t ht hid hwaits

/-- The sessions `expire_due` ends. -/
def due (now : Time) (l : LiveSession) : Bool := l.state.live && decide (l.expiresAt ≤ now)

theorem expireDue_eq (x : Txn) (s : Store) :
    expireDue x s = (s.sessions.select (due x.now)).foldl (fun s l => expireSession x l s)
      (setSessions (due x.now) .expired s) := rfl

theorem expireDue_ends (x : Txn) (s : Store) :
    ∀ l ∈ s.sessions, due x.now l = true → ∀ t ∈ (expireDue x s).tasks, t.id = l.taskId →
      t.state ≠ .waitingInput := by
  intro l hl hdue
  exact (expireSessions_ends x _ _).2 l (Table.mem_select.mpr ⟨hl, hdue⟩)

theorem expireDue_minds (x : Txn) (s : Store) : Minds s (expireDue x s) := by
  have hwinds := (expireSessions_ends x (s.sessions.select (due x.now))
    (setSessions (due x.now) .expired s)).1
  rw [← expireDue_eq] at hwinds
  have hsessions : (expireDue x s).sessions = (setSessions (due x.now) .expired s).sessions :=
    hwinds.sessions
  constructor
  · intro t' ht' hstate
    exact (Minds.of_winds hwinds).waiting t' ht' hstate
  · exact hwinds.jobs
  · intro t' ht' hstate l hl htask hlive
    cases hdue : due x.now l with
    | false => exact ⟨l, hsessions.symm ▸ Minds.kept hl hdue, rfl, hlive, rfl⟩
    | true => exact absurd hstate (expireDue_ends x s l hl hdue t' ht' htask.symm)
  · intro l hl hdead
    have hnot : due x.now l = false := by
      unfold due
      rw [hdead]
      rfl
    exact hsessions.symm ▸ Minds.kept hl hnot

/-- What the pass leaves of a task. -/
theorem expireSessions_tasks (x : Txn) (rows : List LiveSession) (s : Store) :
    ∀ t ∈ s.tasks, ∃ t' ∈ (rows.foldl (fun s l => expireSession x l s) s).tasks,
      t'.id = t.id ∧ (t'.state = t.state ∨ t'.state = .permanentFailed) := by
  induction rows generalizing s with
  | nil => exact fun t ht => ⟨t, ht, rfl, Or.inl rfl⟩
  | cons l rows ih =>
      intro t ht
      have hfirst : ∃ u ∈ (expireSession x l s).tasks,
          u.id = t.id ∧ (u.state = t.state ∨ u.state = .permanentFailed) := by
        unfold expireSession
        split
        · exact ⟨t, ht, rfl, Or.inl rfl⟩
        · split
          · exact ⟨t, ht, rfl, Or.inl rfl⟩
          · refine ⟨_, List.mem_map_of_mem ht, ?_⟩
            split
            · exact ⟨rfl, Or.inr rfl⟩
            · exact ⟨rfl, Or.inl rfl⟩
      obtain ⟨u, hu, huid, hustate⟩ := hfirst
      obtain ⟨t', ht', hid, hstate⟩ := ih (expireSession x l s) u hu
      refine ⟨t', ht', hid.trans huid, ?_⟩
      rcases hstate with hstate | hstate
      · rw [hstate]
        exact hustate
      · exact Or.inr hstate

/-- A waiting task whose session is due fails for good. -/
theorem expireDue_fails (x : Txn) {l : LiveSession} (hl : l ∈ s.sessions)
    (hdue : due x.now l = true) {t : Task} (ht : t ∈ s.tasks) (htask : l.taskId = t.id)
    (hstate : t.state = .waitingInput) :
    ∃ t' ∈ (expireDue x s).tasks, t'.id = t.id ∧ t'.state = .permanentFailed := by
  obtain ⟨t', ht', hid, hends⟩ := expireSessions_tasks x (s.sessions.select (due x.now))
    (setSessions (due x.now) .expired s) t ht
  refine ⟨t', ht', hid, hends.resolve_left fun hsame => ?_⟩
  exact expireDue_ends x s l hl hdue t' ht' (hid.trans htask.symm) (hsame.trans hstate)

/-! ## Parking -/

/-- Every task that waits is housed. -/
def AllHoused (s : Store) : Prop := ∀ t ∈ s.tasks, t.state = .waitingInput → Housed t s

theorem Minds.allHoused {s' : Store} (h : Minds s s') (hs : AllHoused s) : AllHoused s' := by
  intro t' ht' hstate
  obtain ⟨t, ht, hid, hjob, hwaits⟩ := h.waiting t' ht' hstate
  exact h.housed ht' hstate hid hjob (hs t ht hwaits)

/-- The holder of the lease `f` parks it under the new session `l`. -/
inductive Parks (s : Store) : Store → Prop
  | park {f : FencedTask} {l : LiveSession} {s₁ : Store} (now : Time) (code : String)
      (fenced : Fenced s f) (inserted : s.insertSession l = some s₁)
      (task : l.taskId = f.task.id) (live : l.state.live = true)
      (expires : l.expiresAt ≤ f.job.deadlineAt) : Parks s (parkTask now f code s₁)

/-- A task is parked with its session, and the others stay housed. -/
theorem Parks.allHoused {s s' : Store} (h : Parks s s') (hs : AllHoused s) : AllHoused s' := by
  obtain @⟨f, l, s₁, now, code, hf, hl, htask, hlive, hexpires⟩ := h
  obtain ⟨T, hT, rfl⟩ := Option.map_eq_some_iff.mp hl
  have hsession : ∀ k, k ∈ s.sessions ∨ k = l → k ∈ T := fun k => (Table.mem_of_insert? hT).mpr
  -- The jobs take the reservation back and keep their deadlines.
  have hjobs : ∀ j ∈ s.jobs, ∃ j' ∈ (parkTask now f code { s with sessions := T }).jobs,
      j'.id = j.id ∧ j'.deadlineAt = j.deadlineAt := by
    intro j hj
    refine ⟨_, List.mem_map_of_mem hj, ?_⟩
    split
    · exact ⟨rfl, rfl⟩
    · exact ⟨rfl, rfl⟩
  intro t' ht' hstate
  obtain ⟨t, ht, hrow⟩ := List.mem_map.mp ht'
  by_cases hp : decide (t.id = f.task.id) = true
  · rw [if_pos hp] at hrow
    have hsame : t = f.task := task_eq_of_id ht hf.mem (of_decide_eq_true hp)
    obtain ⟨j', hj', hjid, hdeadline⟩ := hjobs f.job hf.job_mem
    refine ⟨l, hsession l (Or.inr rfl), ?_, hlive, j', hj', ?_, ?_⟩
    · rw [← hrow, hsame]
      exact htask
    · rw [hjid, hf.job_id, ← hrow, hsame]
      rfl
    · rw [hdeadline]
      exact hexpires
  · rw [if_neg hp] at hrow
    subst hrow
    obtain ⟨k, hk, hktask, hklive, j, hj, hjid, hkexpires⟩ := hs t ht hstate
    obtain ⟨j', hj', hjid', hdeadline⟩ := hjobs j hj
    refine ⟨k, hsession k (Or.inl hk), hktask, hklive, j', hj', hjid'.trans hjid, ?_⟩
    rw [hdeadline]
    exact hkexpires

/-- The sessions that exist stay as they are. -/
theorem Parks.keeps {s s' : Store} (h : Parks s s') {k : LiveSession} (hk : k ∈ s.sessions) :
    k ∈ s'.sessions := by
  obtain @⟨f, l, s₁, now, code, hf, hl, htask, hlive, hexpires⟩ := h
  obtain ⟨T, hT, rfl⟩ := Option.map_eq_some_iff.mp hl
  exact (Table.mem_of_insert? hT).mpr (Or.inl hk)

/-- A start parks its lease, or does nothing. -/
def ParksOnce (s s' : Store) : Prop := s' = s ∨ Parks s s'

theorem waitForInputLocal_parks (x : Txn) (taskId token : Uuid) (backend workerId : String)
    (ttlSeconds : ℤ) :
    Steps ParksOnce (waitForInputLocal x taskId token backend workerId ttlSeconds) := by
  intro s b s' h
  unfold waitForInputLocal at h
  split at h
  · exact (raise_ok.mp h).elim
  · simp only [bind_ok, read_ok] at h
    obtain ⟨found, _, ⟨hfound, rfl⟩, h⟩ := h
    cases found with
    | none => exact (raise_ok.mp h).elim
    | some f =>
        obtain ⟨hf, hid, -⟩ := Fenced.of_fencedTask hfound
        simp only at h
        split at h
        · exact (raise_ok.mp h).elim
        · simp only [bind_ok, attempt_ok, exec_ok, pure_ok] at h
          obtain ⟨_, s₁, h₁, _, _, rfl, -, rfl⟩ := h
          exact Or.inr (.park x.now _ hf h₁ hid.symm rfl (min_le_right _ _))

theorem sessionExpiry_le (now : Time) (ttlSeconds : Option ℤ) (deadline : Time) :
    WorkerApi.sessionExpiry now ttlSeconds deadline ≤ deadline := by
  cases ttlSeconds with
  | none => exact le_refl _
  | some ttl => exact min_le_right _ _

theorem startLiveSession_parks (x : Txn) (role : String) (taskId token : Uuid)
    (backend workerId : String) (ttlSeconds : Option ℤ) (code : String) :
    Steps ParksOnce
      (WorkerApi.startLiveSession x role taskId token backend workerId ttlSeconds code) := by
  intro s b s' h
  simp only [WorkerApi.startLiveSession, bind_ok] at h
  obtain ⟨worker, s₁, hworker, h⟩ := h
  obtain rfl := identity_ok hworker
  split at h
  · exact (raise_ok.mp h).elim
  · simp only [bind_ok, read_ok] at h
    obtain ⟨found, _, ⟨hfound, rfl⟩, h⟩ := h
    cases found with
    | none =>
        obtain ⟨-, rfl⟩ := pure_ok.mp h
        exact Or.inl rfl
    | some f =>
        obtain ⟨hf, hid, -⟩ := activeTask_ok hfound
        simp only at h
        split at h
        · obtain ⟨-, rfl⟩ := pure_ok.mp h
          exact Or.inl rfl
        · simp only [bind_ok, attempt_ok, exec_ok, pure_ok] at h
          obtain ⟨_, s₁, h₁, _, _, rfl, -, rfl⟩ := h
          exact Or.inr (.park x.now _ hf.toFenced h₁ hid.symm rfl (sessionExpiry_le ..))

theorem waitForInput_parks (x : Txn) (role : String) (taskId token : Uuid) (code : String) :
    Steps ParksOnce (WorkerApi.waitForInput x role taskId token code) := by
  intro s b s' h
  simp only [WorkerApi.waitForInput, bind_ok, pure_ok] at h
  obtain ⟨worker, s₁, hworker, started, s₂, hstart, -, rfl⟩ := h
  obtain rfl := identity_ok hworker
  exact startLiveSession_parks _ _ _ _ _ _ _ _ hstart

instance : Std.Refl ParksOnce := ⟨fun _ => Or.inl rfl⟩

/-! ## Every call -/

/-- `close_completed` finds the task of its session succeeded. -/
def ClosesCompleted (r : Request) (s : Store) : Prop :=
  ∀ id, r.call = .closeCompleted id → ∀ l ∈ s.sessions, l.id = id →
    ∀ t ∈ s.tasks, t.id = l.taskId → t.state = .succeeded

theorem remote_call_minds (x : Txn) (role : String) (call : RemoteCall) :
    Steps Minds (call.body x role) ∨ Steps ParksOnce (call.body x role) := by
  by_cases hmoves : call.moves = false
  · exact Or.inl (winds_minds (remote_winds hmoves))
  · cases call with
    | fail taskId token errorClass errorCode metadata => exact Or.inl (fail_minds ..)
    | retry taskId token errorClass errorCode availableAt metadata => exact Or.inl (retry_minds ..)
    | release taskId token => exact Or.inl (release_minds ..)
    | complete taskId token artifact report => exact Or.inl (complete_minds ..)
    | startLiveSession taskId token backend workerId ttlSeconds code =>
        exact Or.inr (startLiveSession_parks ..).map
    | waitForInput taskId token code => exact Or.inr (waitForInput_parks ..)
    | touchLiveSession id => exact Or.inl (touchLiveSession_minds ..)
    | closeLiveSession id reason => exact Or.inl (closeLiveSession_minds ..)
    | finishLiveSession id => exact Or.inl (finishLiveSession_minds ..)
    | _ => exact absurd rfl hmoves

/-- A call parks a task with its session, or minds those there are. -/
theorem step_minds (r : Request) (h : ClosesCompleted r s) :
    Minds s (step url r s) ∨ Parks s (step url r s) := by
  have hsteps : Steps Minds (r.call.body url r.txn) → Minds s (step url r s) := fun hm =>
    hm.committed s
  have hparks : Steps ParksOnce (r.call.body url r.txn) →
      Minds s (step url r s) ∨ Parks s (step url r s) := fun hm => by
    rcases hm.committed s with hsame | hpark
    · rw [show step url r s = s from hsame]
      exact Or.inl (refl_of Minds s)
    · exact Or.inr hpark
  obtain ⟨x, call⟩ := r
  by_cases hmoves : call.moves = false
  · exact Or.inl (Minds.of_winds (step_winds hmoves s))
  · cases call with
    | submitJob config key => exact Or.inl (hsteps (submitJob_minds ..).map)
    | populateRetries config jobId rows => exact Or.inl (hsteps (populateRetries_minds ..).map)
    | requestCancel jobId => exact Or.inl (hsteps (requestCancel_minds ..))
    | completeTask taskId token result => exact Or.inl (hsteps (completeTask_minds ..))
    | retryTask taskId token decision availableAt metadata =>
        exact Or.inl (hsteps (retryTask_minds ..))
    | reapExpiredLeases => exact Or.inl (hsteps (reapExpiredLeases_minds ..).map)
    | waitForInputLocal taskId token backend workerId ttlSeconds =>
        exact hparks (waitForInputLocal_parks ..).map
    | requestResume id =>
        exact Or.inl (hsteps (exec_bind_steps (attachable_minds _ _ rfl) (Steps.pure _)))
    | touchSession id =>
        exact Or.inl (hsteps (exec_bind_steps (attachable_minds _ _ rfl) (Steps.pure _)))
    | closeCompleted id => exact Or.inl (closeCompleted_minds (h id rfl))
    | closeSession id reason workerId => exact Or.inl (hsteps (closeSession_minds ..))
    | expireDue => exact Or.inl (hsteps (exec_bind_steps (expireDue_minds x) (Steps.pure _)))
    | remote role call =>
        rcases remote_call_minds x role call with hm | hm
        · exact Or.inl (hsteps hm)
        · exact hparks hm
    | _ => exact absurd rfl hmoves

/-- A session that has ended stays as it is. -/
theorem step_dead (r : Request) {l : LiveSession} (hl : l ∈ s.sessions)
    (hdead : l.state.live = false) : l ∈ (step url r s).sessions := by
  by_cases hclose : ∃ id, r.call = .closeCompleted id
  · obtain ⟨x, call⟩ := r
    obtain ⟨id, rfl⟩ := hclose
    refine Minds.kept hl ?_
    have hnot : l.state ≠ .resuming := fun hstate => by
      rw [hstate] at hdead
      cases hdead
    simp [hnot]
  · have hcloses : ClosesCompleted r s := fun id hid => absurd ⟨id, hid⟩ hclose
    have hstep : Minds s (step url r s) ∨ Parks s (step url r s) := step_minds r hcloses
    rcases hstep with hminds | hparks
    · exact hminds.dead l hl hdead
    · exact hparks.keeps hl

theorem run_dead {l : LiveSession} (hl : l ∈ s.sessions) (hdead : l.state.live = false)
    (requests : List Request) : l ∈ (run url s requests).sessions := by
  have hstep : ∀ r s', True → l ∈ s'.sessions → l ∈ (step url r s').sessions :=
    fun r s' _ hmem => step_dead r hmem hdead
  exact runFrom_invariant (I := fun s : Store => l ∈ s.sessions) hstep
    (stepsMeet_of_forall fun _ _ _ => trivial) hl

theorem run_housed {requests : List Request} (h : StepsMeet (step url) ClosesCompleted s requests)
    (hs : AllHoused s) : AllHoused (run url s requests) := by
  refine runFrom_invariant (fun r s hr hs => ?_) h hs
  rcases step_minds r hr with hminds | hparks
  · exact hminds.allHoused hs
  · exact hparks.allHoused hs

end Moving

/-! ## The session runner -/

/-- `close_completed` as the session runner calls it: a `complete_task` of the
session's task has been accepted before. -/
def RunnerCloses (url : UrlIdentity) (s₀ : Store) (requests : List Request) : Prop :=
  ∀ before r after, requests = before ++ r :: after → ∀ id, r.call = .closeCompleted id →
    ∀ l ∈ (run url s₀ before).sessions, l.id = id →
      ∃ earlier c between token result, before = earlier ++ c :: between ∧
        c.call = .completeTask l.taskId token result ∧
        reply url c (run url s₀ earlier) = .ok true

section Runner

variable {url : UrlIdentity}

theorem stepsMeet_of_split {σ κ : Type*} {step : κ → σ → σ} {P : κ → σ → Prop} {s : σ}
    {calls : List κ} (h : ∀ before c after, calls = before ++ c :: after →
      P c (runFrom step s before)) : StepsMeet step P s calls := by
  induction calls generalizing s with
  | nil => trivial
  | cons c calls ih =>
      refine ⟨h [] c calls rfl, ih fun before c' after hsplit => ?_⟩
      exact h (c :: before) c' after (by rw [hsplit]; rfl)

/-- Every task row of the first store is one of the second. -/
def KeepsTasks (s s' : Store) : Prop := ∀ t ∈ s.tasks, t ∈ s'.tasks

instance : Std.Refl KeepsTasks := ⟨fun _ _ h => h⟩

instance : IsTrans Store KeepsTasks := ⟨fun _ _ _ h h' t ht => h' t (h t ht)⟩

theorem insertTaskOnce_keepsTasks (t : Task) : Steps KeepsTasks (insertTaskOnce t) := by
  unfold insertTaskOnce
  refine Steps.read_bind fun found => Steps.ite (Steps.pure _) ?_
  refine attempt_bind_steps (fun s s' h => ?_) (Steps.pure _)
  obtain ⟨-, T, hT, rfl⟩ := insertTask_eq_some.mp h
  exact fun u hu => (Table.mem_of_insert? hT).mpr (Or.inl hu)

theorem insertLinks_keepsTasks (x : Txn) (f : FencedTask) (remaining : ℤ) (urls : List String)
    (draw : ℕ) (accepted : ℤ) :
    Steps KeepsTasks (insertLinks url x f remaining urls draw accepted) := by
  induction urls generalizing draw accepted with
  | nil => exact Steps.pure _
  | cons original urls ih =>
      unfold insertLinks
      refine Steps.ite (Steps.pure _) (Steps.ite (ih ..) ?_)
      exact (insertTaskOnce_keepsTasks _).bind fun _ => ih ..

theorem insertDiscovered_keepsTasks (x : Txn) (f : FencedTask) (urls : List String) :
    Steps KeepsTasks (insertDiscovered url x f urls) := by
  unfold insertDiscovered
  refine Steps.ite (Steps.pure _) (Steps.ite (Steps.pure _) ?_)
  refine (insertLinks_keepsTasks ..).bind fun accepted => Steps.ite ?_ (Steps.pure _)
  exact Steps.exec fun _ _ ht => ht

/-- An accepted completion leaves its task succeeded. -/
theorem completeTask_succeeds {x : Txn} {taskId token : Uuid} {result : TaskResult} {s s' : Store}
    (h : completeTask url x taskId token result s = .ok (true, s')) :
    ∃ t ∈ s'.tasks, t.id = taskId ∧ t.state = .succeeded := by
  rw [completeTask, bind_ok] at h
  obtain ⟨found, s₁, hlease, h⟩ := h
  rcases @activeLease_ok (fun _ => True) trivial _ _ _ _ _ _ hlease with
    ⟨rfl, -⟩ | ⟨f, rfl, rfl, hf, hid, -⟩
  · have hfalse := (pure_ok.mp h).1
    cases hfalse
  · simp only at h
    split at h
    · obtain ⟨_, _, -, hpure⟩ := bind_ok.mp h
      have hfalse := (pure_ok.mp hpure).1
      cases hfalse
    · simp only [bind_ok, read_ok] at h
      obtain ⟨done, _, ⟨-, rfl⟩, h⟩ := h
      split at h
      · have hfalse := (pure_ok.mp h).1
        cases hfalse
      · simp only [bind_ok, attempt_ok, exec_ok, pure_ok] at h
        obtain ⟨_, s₂, hresult, _, s₃, hlinks, _, _, rfl, -, rfl⟩ := h
        obtain ⟨T, -, rfl⟩ := Option.map_eq_some_iff.mp hresult
        have hmem : f.task ∈ s₃.tasks := insertDiscovered_keepsTasks x f _ hlinks f.task hf.mem
        refine ⟨_, List.mem_map_of_mem hmem, ?_⟩
        have hrow : (decide (f.task.id = f.task.id) &&
            decide (f.task.leaseToken = some f.token)) = true := by simp [hf.token]
        rw [if_pos hrow]
        exact ⟨hid, rfl⟩

/-- The task of a session the runner closes has succeeded, and stays so. -/
theorem RunnerCloses.closesCompleted {s₀ : Store} {requests : List Request}
    (h : RunnerCloses url s₀ requests) : StepsMeet (step url) ClosesCompleted s₀ requests := by
  refine stepsMeet_of_split fun before r after hsplit id hid l hl hlid t ht htask => ?_
  obtain ⟨earlier, c, between, token, result, hbefore, hcall, hreply⟩ :=
    h before r after hsplit id hid l hl hlid
  have hbody := reply_ok hreply
  rw [hcall] at hbody
  obtain ⟨u, hu, huid, hustate⟩ := completeTask_succeeds hbody
  have hrun : run url s₀ before = run url (step url c (run url s₀ earlier)) between := by
    rw [hbefore, run, runFrom_append, runFrom_cons]
  have hstays : ∃ v ∈ (run url s₀ before).tasks, v.id = u.id ∧ v.state = u.state := by
    rw [hrun]
    exact terminal_stays hu (by rw [hustate]; rfl) between
  obtain ⟨v, hv, hvid, hvstate⟩ := hstays
  rw [task_eq_of_id ht hv (htask.trans (huid.symm.trans hvid.symm)), hvstate, hustate]

/-- A run in which nothing is closed as completed. -/
theorem RunnerCloses.of_none {s₀ : Store} {requests : List Request}
    (h : ∀ r ∈ requests, ∀ id, r.call ≠ .closeCompleted id) : RunnerCloses url s₀ requests := by
  intro before r after hsplit id hid
  exact absurd hid (h r (by simp [hsplit]) id)

/-- A run that closes what it has completed last. -/
theorem RunnerCloses.concat {s₀ : Store} {requests : List Request} {r : Request}
    (h : RunnerCloses url s₀ requests)
    (hr : ∀ id, r.call = .closeCompleted id → ∀ l ∈ (run url s₀ requests).sessions, l.id = id →
      ∃ earlier c between token result, requests = earlier ++ c :: between ∧
        c.call = .completeTask l.taskId token result ∧
        reply url c (run url s₀ earlier) = .ok true) :
    RunnerCloses url s₀ (requests ++ [r]) := by
  intro before r' after hsplit
  rcases List.eq_nil_or_concat after with rfl | ⟨after', d, rfl⟩
  · obtain ⟨rfl, hlast⟩ := List.append_inj' hsplit rfl
    obtain rfl : r = r' := by simpa using hlast
    exact hr
  · refine h before r' after' ?_
    have hinit : requests ++ [r] = (before ++ r' :: after') ++ [d] := by simpa using hsplit
    exact (List.append_inj' hinit rfl).1

/-! ## Resuming -/

/-- The request asks for a new lease of the session's task. -/
def Resumes (id : Uuid) (r : Request) : Prop :=
  (∃ workerId, r.call = .resumeLiveSession id workerId) ∨
    ∃ role, r.call = .remote role (.resumeLiveSession id)

/-- A session that has ended is not resumed. -/
theorem resume_dead {r : Request} {s : Store} {l : LiveSession} (hr : Resumes l.id r)
    (hl : l ∈ s.sessions) (hdead : l.state.live = false) : step url r s = s ∧ rejected url r s := by
  have hfails : ∀ b s', r.call.body url r.txn s = .ok (b, s') → b = false ∧ s' = s := by
    intro b s' h
    obtain ⟨x, call⟩ := r
    rcases hr with ⟨workerId, rfl⟩ | ⟨role, rfl⟩
    · obtain ⟨claim, hresume, rfl⟩ := map_ok.mp h
      simp only [resumeLiveSession, bind_ok, read_ok] at hresume
      obtain ⟨found, _, ⟨hfound, rfl⟩, hresume⟩ := hresume
      cases found with
      | none =>
          obtain ⟨rfl, rfl⟩ := pure_ok.mp hresume
          exact ⟨rfl, rfl⟩
      | some k =>
          obtain ⟨hk, hp⟩ := Table.find?_eq_some hfound
          simp only [Bool.and_eq_true, decide_eq_true_eq] at hp
          have hsame : k = l :=
            Table.eq_of_clash hk hl (by simp [Clashes, Keyed.clash, Keyed.key, hp.1.1.1])
          rw [← hsame, hp.1.2] at hdead
          cases hdead
    · obtain ⟨claim, hresume, rfl⟩ := map_ok.mp h
      obtain ⟨rfl, rfl⟩ := remote_resumeLiveSession_ok hresume
      exact ⟨rfl, rfl⟩
  constructor
  · rcases step_cases r s with hsame | ⟨b, hbody⟩
    · exact hsame
    · exact (hfails b _ hbody).2
  · intro hreply
    have hfalse := (hfails true _ (reply_ok hreply)).1
    cases hfalse

/-- No parked task is stranded: it has exactly one live session, which ends no
later than the job and whose expiry ends the task, and a session that has ended
never leads to a new lease. -/
theorem parked_not_stranded (url : UrlIdentity) (s₀ : Store) (h₀ : s₀.blank)
    (requests : List Request) (hrunner : RunnerCloses url s₀ requests) :
    let s := run url s₀ requests
    (∀ t ∈ s.tasks, t.state = .waitingInput →
      ∃ l ∈ s.sessions, l.taskId = t.id ∧ l.state.live = true ∧
        (∀ k ∈ s.sessions, k.taskId = t.id → k = l) ∧
        (∃ j ∈ s.jobs, j.id = t.jobId ∧ l.expiresAt ≤ j.deadlineAt) ∧
        ∀ x : Txn, l.expiresAt ≤ x.now →
          ∃ t' ∈ (step url ⟨x, .expireDue⟩ s).tasks, t'.id = t.id ∧ t'.state.terminal = true) ∧
    ∀ l ∈ s.sessions, l.state.live = false → ∀ more r, Resumes l.id r →
      step url r (run url s more) = run url s more ∧ rejected url r (run url s more) := by
  intro s
  have hblank : AllHoused s₀ := by
    intro t ht
    rw [h₀.2.1] at ht
    exact absurd ht (by simp)
  have hhoused : AllHoused s := run_housed hrunner.closesCompleted hblank
  constructor
  · intro t ht hstate
    obtain ⟨l, hl, htask, hlive, hends⟩ := hhoused t ht hstate
    refine ⟨l, hl, htask, hlive, fun k hk hktask => ?_, hends, fun x hexpired => ?_⟩
    · exact Table.eq_of_clash hk hl (by simp [Clashes, Keyed.clash, Keyed.key, hktask, htask])
    · have hdue : due x.now l = true := by simp [due, hlive, hexpired]
      obtain ⟨t', ht', hid, hfailed⟩ := expireDue_fails x hl hdue ht htask hstate
      exact ⟨t', ht', hid, by rw [hfailed]; rfl⟩
  · intro l hl hdead more r hr
    exact resume_dead hr (run_dead hl hdead more) hdead

end Runner

/-! ## Samples -/

/-- The seed is parked under session 21. -/
def parked : List Request := [Sample.submit, Sample.claim, park (seconds 2) 11 21]

/-- It is resumed under token 41 and completed. -/
def completed : List Request :=
  parked ++
    [⟨{ now := seconds 3, uuid := fun n => 31 + n }, .requestResume 21⟩,
      ⟨{ now := seconds 4, uuid := fun n => 41 + n }, .resumeLiveSession 21 "local"⟩,
      ⟨{ now := seconds 5, uuid := fun n => 51 + n }, .completeTask 2 41
        { finalUrl := "https://example.com", markdown := "A page." }⟩]

/-- The runner closes its session. -/
def close : Request := ⟨{ now := seconds 6, uuid := fun n => 61 + n }, .closeCompleted 21⟩

/-- The parked seed has a live session; once the session is closed nothing
resumes it. -/
theorem parked_not_stranded_seed :
    (∃ t ∈ (run Sample.identity {} parked).tasks, t.state = .waitingInput ∧
      ∃ l ∈ (run Sample.identity {} parked).sessions, l.taskId = t.id ∧ l.state.live = true) ∧
    ∀ more r, Resumes 21 r →
      rejected Sample.identity r
        (run Sample.identity (run Sample.identity {} (completed ++ [close])) more) := by
  have hblank : Store.blank {} := by simp [Store.blank]
  have hparked : RunnerCloses Sample.identity {} parked :=
    .of_none (by simp [parked, Sample.submit, Sample.claim, park])
  have hcompleted : RunnerCloses Sample.identity {} (completed ++ [close]) := by
    refine RunnerCloses.concat (.of_none ?_) fun id _ l hl _ => ?_
    · simp [completed, parked, Sample.submit, Sample.claim, park]
    have htask : ∀ l ∈ (run Sample.identity {} completed).sessions, l.taskId = 2 := by
      decide
    rw [htask l hl]
    exact ⟨completed.take 5, completed[5], [], 41, _, rfl, rfl, by decide⟩
  constructor
  · have hwaits : ∃ t ∈ (run Sample.identity {} parked).tasks, t.state = .waitingInput := by
      decide
    obtain ⟨t, ht, hstate⟩ := hwaits
    obtain ⟨l, hl, htask, hlive, -⟩ :=
      (parked_not_stranded Sample.identity {} hblank parked hparked).1 t ht hstate
    exact ⟨t, ht, hstate, l, hl, htask, hlive⟩
  · have hclosed : ∃ l ∈ (run Sample.identity {} (completed ++ [close])).sessions,
        l.id = 21 ∧ l.state.live = false := by decide
    obtain ⟨l, hl, hid, hdead⟩ := hclosed
    intro more r hr
    exact ((parked_not_stranded Sample.identity {} hblank _ hcompleted).2 l hl hdead more r
      (hid ▸ hr)).2

example : (run Sample.identity {} parked).tasks.rows.map Task.state = [.waitingInput] := by
  decide +kernel

end Sessions

end CrawlTrove
