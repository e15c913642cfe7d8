import CrawlTrove.Protocol.Claim
import CrawlTrove.Protocol.Failure

/-!
# The session operations, written twice

A live session belongs to the core or to an enrolled worker, who parks, keeps,
resumes and ends it through `worker_api`. `sessions_agree_iff` says when both
take the same decision and leave the same rows: for starting and closing a
session unless the time to live or the reason is missing (`None`, NULL), which
only the core refuses, for closing not when the core cancels a lease of somebody
else, and for resuming only when there is nothing to resume.
-/

namespace CrawlTrove

open Relational Transaction

namespace Protocol

/-! ## Calls and decisions -/

/-- The operations on live sessions. -/
inductive SessionCall
  | start (taskId token : Uuid) (backend : String) (ttlSeconds : Option ℤ)
  | touch (id : Uuid)
  | close (id : Uuid) (reason : CloseReason)
  | resume (id : Uuid)
  | finish (id : Uuid)

/-- The session a call is about; a start draws its identifier. -/
def SessionCall.session (x : Txn) : SessionCall → Uuid
  | .start .. => x.uuid 0
  | .touch id | .close id _ | .resume id | .finish id => id

/-- What the caller is told; a grant may come with a byte and an artifact
allowance. -/
inductive Decision
  | granted (allowances : Option (ℤ × ℤ))
  | refused
  | error
deriving DecidableEq

def Decision.ofBool (ok : Bool) : Decision := if ok then .granted none else .refused

def Decision.ofClaim : Option ClaimedTask → Decision
  | none => .refused
  | some g => .granted (some (g.byteAllowance, g.artifactAllowance))

/-- `SessionStateError`, an argument the core does not take (`ValueError`, or
`TypeError` for `None`) and SQLSTATE 22023 refuse the request; other errors reach
the caller. -/
def decision : Except DbError Decision → Decision
  | .ok d => d
  | .error (.invalidParameter _) => .refused
  | .error _ => .error

/-- `touch`, with what it returns. -/
def touch (x : Txn) (id : Uuid) : Tx Bool := do
  let found ← read fun s => s.sessions.any (attachable x.now id)
  exec (touchSession x id)
  return found

/-- `close_completed`, with what it returns. -/
def closeCompletedSession (id : Uuid) : Tx Bool := do
  let found ← read fun s => s.sessions.any fun l => l.id = id && l.state = .resuming
  exec (closeCompleted id)
  return found

/-- The call through the core, by a worker of this name. -/
def SessionCall.core (x : Txn) (workerId : String) : SessionCall → Tx Decision
  -- The comparison `300 <= None` raises.
  | .start _ _ _ none => raise (.invalidParameter "session TTL is missing")
  | .start taskId token backend (some ttlSeconds) =>
      (fun _ => .granted none) <$> waitForInputLocal x taskId token backend workerId ttlSeconds
  | .touch id => Decision.ofBool <$> Protocol.touch x id
  | .close id reason => Decision.ofBool <$> closeSession x id reason (some workerId)
  | .resume id => Decision.ofClaim <$> CrawlTrove.resumeLiveSession x id workerId
  | .finish id => Decision.ofBool <$> closeCompletedSession id

/-- The call through the worker protocol. -/
def SessionCall.remote (x : Txn) (role workerId : String) : SessionCall → Tx Decision
  | .start taskId token backend ttlSeconds =>
      (fun started => Decision.ofBool started.isSome) <$>
        WorkerApi.startLiveSession x role taskId token backend workerId ttlSeconds
          "human_input_required"
  | .touch id => Decision.ofBool <$> WorkerApi.touchLiveSession x role id
  | .close id reason => Decision.ofBool <$> WorkerApi.closeLiveSession x role id reason
  | .resume id => Decision.ofClaim <$> WorkerApi.resumeLiveSession x role id
  | .finish id => Decision.ofBool <$> WorkerApi.finishLiveSession role id

/-! ## Owners -/

/-- The session of this identifier belongs to `owner`, or to the core. -/
def own (owner : Option String) (id : Uuid) (l : LiveSession) : LiveSession :=
  if l.id = id then { l with workerId := owner } else l

theorem key_own (owner : Option String) (id : Uuid) (l : LiveSession) :
    Keyed.key (own owner id l) = Keyed.key l := by
  unfold own
  split <;> rfl

/-- The store in which the session belongs to `owner`, or to the core. -/
def ownedBy (owner : Option String) (id : Uuid) (s : Store) : Store :=
  { s with sessions := s.sessions.update (fun _ => true) (own owner id) (key_own owner id) }

/-- The rows a session operation may change, whoever owns the session. -/
def shown (id : Uuid) (s : Store) :
    Table LiveSession × Table Task × Table Job × Table OriginLease × Table ProxyLease ×
      Table Attempt :=
  ((ownedBy none id s).sessions, s.tasks, s.jobs, s.originLeases, s.proxyLeases, s.attempts)

/-- The core on its own session and the worker on its own take the same
decision and leave the same rows. -/
def SessionsAgree (x : Txn) (role workerId : String) (call : SessionCall) (s : Store) : Prop :=
  let core := commit (call.core x workerId) (ownedBy none (call.session x) s)
  let remote := commit (call.remote x role workerId) (ownedBy (some workerId) (call.session x) s)
  decision core.1 = decision remote.1 ∧
    shown (call.session x) core.2 = shown (call.session x) remote.2

/-- A worker as `enroll_worker.py` creates it, active or draining. -/
structure Enrolled (role : String) (worker : Worker) (s : Store) : Prop where
  mem : worker ∈ s.workers
  role_eq : worker.dbRole = role
  compatible : worker.protocolVersion = 1
  admitted : worker.state = .active ∨ worker.state = .draining
  named : worker.id ≠ ""

/-! ## When they agree -/

/-- A start that passes every check of the worker protocol, and of the core
unless the time to live is missing. -/
def Startable (x : Txn) (worker : Worker) (taskId token : Uuid) (backend : String)
    (ttlSeconds : Option ℤ) (s : Store) : Prop :=
  validBackend backend = true ∧ ttlSeconds.all validTtl = true ∧
    (WorkerApi.activeTask x.now worker taskId token s).isSome = true

/-- The session waits to be resumed with its task `t`. -/
def Resumable (x : Txn) (id : Uuid) (t : Task) (s : Store) : Prop :=
  (∃ l ∈ s.sessions, l.id = id ∧ l.state = .resuming ∧ x.now < l.expiresAt ∧ l.taskId = t.id) ∧
    t ∈ s.tasks ∧ t.state = .waitingInput

/-- The core grants the resumed lease as far as the budgets go. -/
def Leasable (x : Txn) (t : Task) (s : Store) : Prop :=
  ∃ j, s.job? t.jobId = some j ∧ j.cancelRequestedAt = none ∧ x.now < j.deadlineAt ∧
    s.originLeased t.originKey = false ∧ Affordable j

/-- An insert of the core clashes with a row already there: it raises. -/
def SessionCall.Clashes (x : Txn) (worker : Worker) (s : Store) : SessionCall → Prop
  | .start taskId token backend ttlSeconds =>
      ttlSeconds.isSome = true ∧ Startable x worker taskId token backend ttlSeconds s ∧
        ∃ l ∈ s.sessions, l.id = x.uuid 0 ∨ l.taskId = taskId
  | .resume id => ∃ t, Resumable x id t s ∧ Leasable x t s ∧ permitClash t s
  | .touch _ | .close _ _ | .finish _ => False

/-- When both sides agree. -/
def SessionCall.AgreesOn (x : Txn) (worker : Worker) (s : Store) : SessionCall → Prop
  | .start taskId token backend ttlSeconds =>
      -- The worker protocol takes a missing time to live for the job's deadline.
      (worker.state = .active ∧
        ¬ (ttlSeconds = none ∧ Startable x worker taskId token backend ttlSeconds s)) ∨
        (start taskId token backend ttlSeconds).Clashes x worker s
  | .touch _ => worker.state = .active
  | .close id reason =>
      -- The worker protocol takes a missing reason.
      ¬ (reason = none ∧ ∃ l ∈ s.sessions, l.id = id ∧ l.state.live = true) ∧
      -- The core cancels a lease whoever holds it.
      ¬ (reason.cancels = true ∧ ∃ l ∈ s.sessions, l.id = id ∧ l.state.live = true ∧
        ∃ t ∈ s.tasks, t.id = l.taskId ∧ t.state = .leased ∧ t.leaseOwner ≠ some worker.id)
  | .resume id =>
      (worker.state = .active ∧ ¬ ∃ t, Resumable x id t s) ∨ (resume id).Clashes x worker s
  | .finish id =>
      ∀ l ∈ s.sessions, l.id = id → l.state = .resuming →
        ∃ t ∈ s.tasks, t.id = l.taskId ∧ t.state = .succeeded

/-! ## Sessions under another owner -/

section Owners

variable {owner : Option String} {id : Uuid} {s : Store} {l : LiveSession}

@[simp] theorem own_id : (own owner id l).id = l.id := by
  unfold own
  split <;> rfl

@[simp] theorem own_taskId : (own owner id l).taskId = l.taskId := by
  unfold own
  split <;> rfl

@[simp] theorem own_state : (own owner id l).state = l.state := by
  unfold own
  split <;> rfl

@[simp] theorem own_expiresAt : (own owner id l).expiresAt = l.expiresAt := by
  unfold own
  split <;> rfl

theorem own_workerId (h : l.id = id) : (own owner id l).workerId = owner := by
  unfold own
  rw [if_pos h]

theorem any_ownedBy {p q : LiveSession → Bool} (h : ∀ l, p (own owner id l) = q l) :
    (ownedBy owner id s).sessions.any p = s.sessions.any q := by
  unfold ownedBy
  rw [Table.any_update]
  congr 1
  exact funext h

theorem find?_ownedBy {p q : LiveSession → Bool} (h : ∀ l, p (own owner id l) = q l) :
    (ownedBy owner id s).sessions.find? p = (s.sessions.find? q).map (own owner id) := by
  unfold ownedBy
  rw [Table.find?_update]
  congr 2
  exact funext h

theorem own_own {owner' : Option String} : own owner id (own owner' id l) = own owner id l := by
  by_cases hid : l.id = id <;> simp [own, hid]

theorem shown_ownedBy (owner : Option String) (id : Uuid) (s : Store) :
    shown id (ownedBy owner id s) = shown id s := by
  have hsessions : (ownedBy none id (ownedBy owner id s)).sessions = (ownedBy none id s).sessions := by
    apply Table.ext
    refine Eq.trans List.map_map (List.map_congr_left fun l _ => ?_)
    exact own_own
  unfold shown
  rw [hsessions]
  rfl

theorem mem_ownedBy : l ∈ (ownedBy owner id s).sessions ↔ ∃ k ∈ s.sessions, own owner id k = l := by
  unfold ownedBy
  rw [Table.mem_update]
  rfl

/-- A change of sessions, whoever owned them. -/
theorem rows_setSessions {p q : LiveSession → Bool} {state : SessionState}
    (h : ∀ l, p (own owner id l) = q l) :
    (ownedBy none id (setSessions p state (ownedBy owner id s))).sessions.rows =
      s.sessions.rows.map fun l => own none id (if q l then { l with state } else l) := by
  refine Eq.trans List.map_map (Eq.trans List.map_map (List.map_congr_left fun l _ => ?_))
  show own none id (if p (own owner id l) then { own owner id l with state } else own owner id l) = _
  rw [h]
  by_cases hid : l.id = id <;> cases q l <;> simp [own, hid]

/-- The same change of sessions under two owners. -/
theorem shown_setSessions {p p' q q' : LiveSession → Bool} {state : SessionState}
    {owner' : Option String} (h : ∀ l, p (own owner id l) = q l)
    (h' : ∀ l, p' (own owner' id l) = q' l) (hq : ∀ l ∈ s.sessions, q l = q' l) :
    shown id (setSessions p state (ownedBy owner id s)) =
      shown id (setSessions p' state (ownedBy owner' id s)) := by
  have hsessions : (ownedBy none id (setSessions p state (ownedBy owner id s))).sessions =
      (ownedBy none id (setSessions p' state (ownedBy owner' id s))).sessions := by
    apply Table.ext
    rw [rows_setSessions h, rows_setSessions h']
    refine List.map_congr_left fun l hl => ?_
    rw [hq l hl]
  unfold shown
  rw [hsessions]
  rfl

end Owners

section Identity

variable {role : String} {worker : Worker} {s : Store}

theorem session_eq_of_id {T : Table LiveSession} {k l : LiveSession} (hk : k ∈ T) (hl : l ∈ T)
    (h : k.id = l.id) : k = l :=
  Table.eq_of_clash hk hl (by simp [Clashes, Keyed.clash, Keyed.key, h])

theorem worker_eq_of_role {T : Table Worker} {v w : Worker} (hv : v ∈ T) (hw : w ∈ T)
    (h : v.dbRole = w.dbRole) : v = w :=
  Table.eq_of_clash hv hw (by simp [Clashes, Keyed.clash, Keyed.key, h])

theorem Enrolled.ownedBy (h : Enrolled role worker s) (owner : Option String) (id : Uuid) :
    Enrolled role worker (ownedBy owner id s) :=
  ⟨h.mem, h.role_eq, h.compatible, h.admitted, h.named⟩

/-- Who an enrolled worker is, if it may call. -/
theorem Enrolled.identity_ok (h : Enrolled role worker s) {allowDraining : Bool}
    (hadmitted : worker.state = .active ∨ allowDraining = true) :
    WorkerApi.identity role allowDraining s = .ok (worker, s) := by
  have hfound : (s.workers.find? fun w => w.dbRole = role && w.protocolVersion = 1 &&
      (w.state = .active || (allowDraining && w.state = .draining))) = some worker := by
    refine Table.find?_eq_of_mem h.mem ?_ fun w hw hp => ?_
    · rcases h.admitted with hactive | hdraining
      · simp [h.role_eq, h.compatible, hactive]
      · rcases hadmitted with hactive | hallow
        · simp [h.role_eq, h.compatible, hactive]
        · simp [h.role_eq, h.compatible, hdraining, hallow]
    · simp only [Bool.and_eq_true, decide_eq_true_eq] at hp
      exact worker_eq_of_role hw h.mem (hp.1.1.trans h.role_eq.symm)
  unfold WorkerApi.identity
  rw [read_bind_run, hfound]
  rfl

/-- A draining worker may not. -/
theorem Enrolled.identity_error (h : Enrolled role worker s) (hdraining : worker.state ≠ .active) :
    ∃ message, WorkerApi.identity role false s = .error (.insufficientPrivilege message) := by
  have hnone : (s.workers.find? fun w => w.dbRole = role && w.protocolVersion = 1 &&
      (w.state = .active || (false && w.state = .draining))) = none := by
    refine Table.find?_eq_none.mpr fun w hw => ?_
    by_contra hp
    simp only [Bool.false_and, Bool.or_false, Bool.not_eq_false, Bool.and_eq_true,
      decide_eq_true_eq] at hp
    obtain rfl := worker_eq_of_role hw h.mem (hp.1.1.trans h.role_eq.symm)
    exact hdraining hp.2
  unfold WorkerApi.identity
  rw [read_bind_run, hnone]
  exact ⟨_, rfl⟩

end Identity

section Calls

variable {x : Txn} {role : String} {worker : Worker} {s : Store} {id : Uuid}

theorem agree_iff_of_commits {call : SessionCall} {r r' : Except DbError Decision}
    {core remote : Store}
    (hcore : commit (call.core x worker.id) (ownedBy none (call.session x) s) = (r, core))
    (hremote : commit (call.remote x role worker.id)
      (ownedBy (some worker.id) (call.session x) s) = (r', remote)) :
    SessionsAgree x role worker.id call s ↔
      decision r = decision r' ∧ shown (call.session x) core = shown (call.session x) remote := by
  unfold SessionsAgree
  rw [hcore, hremote]

/-- Two runs that answer agree if they answer and leave the same. -/
theorem agree_iff_of_runs {call : SessionCall} {d d' : Decision} {core remote : Store}
    (hcore : call.core x worker.id (ownedBy none (call.session x) s) = .ok (d, core))
    (hremote : call.remote x role worker.id (ownedBy (some worker.id) (call.session x) s) =
      .ok (d', remote)) :
    SessionsAgree x role worker.id call s ↔
      d = d' ∧ shown (call.session x) core = shown (call.session x) remote :=
  agree_iff_of_commits (commit_of_ok hcore) (commit_of_ok hremote)

/-- Two runs that raise agree on the store: both are rolled back. -/
theorem agree_iff_of_errors {call : SessionCall} {e e' : DbError}
    (hcore : call.core x worker.id (ownedBy none (call.session x) s) = .error e)
    (hremote : call.remote x role worker.id (ownedBy (some worker.id) (call.session x) s) =
      .error e') :
    SessionsAgree x role worker.id call s ↔ decision (.error e) = decision (.error e') := by
  rw [agree_iff_of_commits (commit_of_error hcore) (commit_of_error hremote)]
  exact and_iff_left ((shown_ownedBy ..).trans (shown_ownedBy ..).symm)

/-- They differ if the core answers and the worker protocol raises. -/
theorem differ_of_error {call : SessionCall} {d : Decision} {core : Store} {e : DbError}
    (hcore : call.core x worker.id (ownedBy none (call.session x) s) = .ok (d, core))
    (hd : d ≠ .error)
    (hremote : call.remote x role worker.id (ownedBy (some worker.id) (call.session x) s) =
      .error e) (he : decision (.error e) = .error) : ¬ SessionsAgree x role worker.id call s := by
  rw [agree_iff_of_commits (commit_of_ok hcore) (commit_of_error hremote)]
  exact fun h => hd (h.1.trans he)

/-! ### Keeping and finishing -/

theorem core_touch_run (workerId : String) :
    (SessionCall.touch id).core x workerId (ownedBy none id s) =
      .ok (Decision.ofBool (s.sessions.any (attachable x.now id)),
        touchSession x id (ownedBy none id s)) := by
  refine map_run_ok (a := s.sessions.any (attachable x.now id)) ?_
  unfold Protocol.touch
  rw [read_bind_run, exec_bind_run, pure_run]
  rw [any_ownedBy (q := attachable x.now id) fun l => by simp [attachable]]

theorem touch_agree_iff (h : Enrolled role worker s) :
    SessionsAgree x role worker.id (.touch id) s ↔ worker.state = .active := by
  by_cases hactive : worker.state = .active
  · have hmine : ∀ l, (attachable x.now id (own (some worker.id) id l) &&
        (own (some worker.id) id l).workerId = some worker.id) = attachable x.now id l := by
      intro l
      by_cases hid : l.id = id
      · simp [attachable, own_workerId hid]
      · simp [attachable, hid]
    have hremote : (SessionCall.touch id).remote x role worker.id (ownedBy (some worker.id) id s) =
        .ok (Decision.ofBool (s.sessions.any (attachable x.now id)),
          setSessions (fun l => attachable x.now id l && l.workerId = some worker.id) .connected
            (ownedBy (some worker.id) id s)) := by
      refine map_run_ok (a := s.sessions.any (attachable x.now id)) ?_
      unfold WorkerApi.touchLiveSession
      rw [bind_run_ok ((h.ownedBy _ _).identity_ok (Or.inl hactive)), read_bind_run, exec_bind_run,
        pure_run, any_ownedBy hmine]
    simp only [hactive, iff_true]
    exact (agree_iff_of_runs (core_touch_run _) hremote).mpr
      ⟨rfl, shown_setSessions (fun l => by simp [attachable]) hmine fun _ _ => rfl⟩
  · obtain ⟨message, hidentity⟩ := (h.ownedBy (some worker.id) id).identity_error hactive
    have hremote : (SessionCall.touch id).remote x role worker.id (ownedBy (some worker.id) id s) =
        .error (.insufficientPrivilege message) := by
      refine map_run_error ?_
      unfold WorkerApi.touchLiveSession
      rw [bind_run_error hidentity]
    have hanswers : Decision.ofBool (s.sessions.any (attachable x.now id)) ≠ .error := by
      cases s.sessions.any (attachable x.now id) <;> simp [Decision.ofBool]
    simp only [hactive, iff_false]
    exact differ_of_error (core_touch_run _) hanswers hremote rfl

/-- The session's task has succeeded. -/
def finished (s : Store) (l : LiveSession) : Bool :=
  s.tasks.any fun t => t.id = l.taskId && t.state = .succeeded

theorem finish_agree_iff (h : Enrolled role worker s) :
    SessionsAgree x role worker.id (.finish id) s ↔
      ∀ l ∈ s.sessions, l.id = id → l.state = .resuming →
        ∃ t ∈ s.tasks, t.id = l.taskId ∧ t.state = .succeeded := by
  let resuming (l : LiveSession) : Bool := l.id = id && l.state = .resuming
  have hresuming : ∀ l, resuming (own none id l) = resuming l := by
    intro l
    simp [resuming]
  have hcore : (SessionCall.finish id).core x worker.id (ownedBy none id s) =
      .ok (Decision.ofBool (s.sessions.any resuming),
        setSessions resuming .closed (ownedBy none id s)) := by
    refine map_run_ok (a := s.sessions.any resuming) ?_
    unfold closeCompletedSession
    rw [read_bind_run, exec_bind_run, pure_run]
    rw [any_ownedBy (q := resuming) hresuming]
    rfl
  have hmine : ∀ l, ((own (some worker.id) id l).id = id &&
      (own (some worker.id) id l).workerId = some worker.id &&
      (own (some worker.id) id l).state = .resuming &&
      s.tasks.any fun t => t.id = (own (some worker.id) id l).taskId && t.state = .succeeded) =
      (resuming l && finished s l) := by
    intro l
    by_cases hid : l.id = id
    · simp [resuming, finished, hid, own_workerId hid]
    · simp [resuming, hid]
  have hremote : (SessionCall.finish id).remote x role worker.id (ownedBy (some worker.id) id s) =
      .ok (Decision.ofBool (s.sessions.any fun l => resuming l && finished s l),
        setSessions (fun l => l.id = id && l.workerId = some worker.id && l.state = .resuming &&
          s.tasks.any fun t => t.id = l.taskId && t.state = .succeeded) .closed
          (ownedBy (some worker.id) id s)) := by
    have hany : (ownedBy (some worker.id) id s).sessions.any (fun l => l.id = id &&
        l.workerId = some worker.id && l.state = .resuming &&
        s.tasks.any fun t => t.id = l.taskId && t.state = .succeeded) =
        s.sessions.any fun l => resuming l && finished s l := any_ownedBy hmine
    refine map_run_ok (a := s.sessions.any fun l => resuming l && finished s l) ?_
    unfold WorkerApi.finishLiveSession
    rw [bind_run_ok ((h.ownedBy _ _).identity_ok (Or.inr rfl)), read_bind_run, read_bind_run,
      exec_bind_run, pure_run]
    rw [← hany]
    rfl
  rw [agree_iff_of_runs hcore hremote]
  constructor
  · intro hagree l hl hid hstate
    have hany : s.sessions.any resuming = true :=
      Table.any_eq_true.mpr ⟨l, hl, by simp [resuming, hid, hstate]⟩
    have hdone : (s.sessions.any fun l => resuming l && finished s l) = true := by
      by_contra hnone
      have hdecision := hagree.1
      simp only [Bool.not_eq_true] at hnone
      rw [hany, hnone] at hdecision
      cases hdecision
    obtain ⟨k, hk, hp⟩ := Table.any_eq_true.mp hdone
    simp only [resuming, finished, Bool.and_eq_true, decide_eq_true_eq] at hp
    obtain rfl := session_eq_of_id hk hl (hp.1.1.trans hid.symm)
    obtain ⟨t, ht, htask⟩ := Table.any_eq_true.mp hp.2
    exact ⟨t, ht, by simpa using htask⟩
  · intro hdone
    have hsame : ∀ l ∈ s.sessions, resuming l = (resuming l && finished s l) := by
      intro l hl
      cases hl' : resuming l with
      | false => rfl
      | true =>
          simp only [resuming, Bool.and_eq_true, decide_eq_true_eq] at hl'
          obtain ⟨t, ht, htask⟩ := hdone l hl hl'.1 hl'.2
          exact (Table.any_eq_true.mpr ⟨t, ht, by simpa using htask⟩).symm
    have hany : s.sessions.any resuming = s.sessions.any fun l => resuming l && finished s l := by
      refine Bool.eq_iff_iff.mpr ?_
      rw [Table.any_eq_true, Table.any_eq_true]
      exact exists_congr fun l => and_congr_right fun hl => by rw [← hsame l hl]
    exact ⟨congrArg Decision.ofBool hany, shown_setSessions hresuming hmine hsame⟩

/-! ### Closing -/

theorem closeTask_ownedBy (now : Time) (task : Task) (reason : CloseReason) (owned : Bool)
    (owner : Option String) (s : Store) :
    closeTask now task reason owned (ownedBy owner id s) =
      ownedBy owner id (closeTask now task reason owned s) := by
  unfold closeTask
  split
  · rfl
  · split
    · rfl
    · rfl

/-- The session a close finds, under either owner. -/
def closable (id : Uuid) (s : Store) : Option LiveSession :=
  s.sessions.find? fun l => l.id = id && l.state.live

/-- What `close` does, once the session is found. -/
def closeFound (x : Txn) (id : Uuid) (reason : CloseReason) (owned : Task → Bool)
    (owner : Option String) (s : Store) : Bool × Store :=
  match closable id s with
  | none => (false, ownedBy owner id s)
  | some l =>
      match s.task? l.taskId with
      | none => (true, setSession id reason.session (ownedBy owner id s))
      | some t =>
          if t.state = .succeeded then (true, setSession id .closed (ownedBy owner id s))
          else (true, setSession id reason.session
            (ownedBy owner id (closeTask x.now t reason (owned t) s)))

theorem core_close_run {reason : CloseReason} (hknown : reason.known = true)
    (workerId : String) :
    closeSession x id reason (some workerId) (ownedBy none id s) =
      .ok (closeFound x id reason
        (fun t => reason.cancels || decide (t.leaseOwner = some workerId)) none s) := by
  have hfind : (ownedBy none id s).sessions.find? (fun l => l.id = id && l.state.live) =
      (closable id s).map (own none id) := find?_ownedBy fun l => by simp
  unfold closeSession closeFound
  rw [if_neg (by simp [hknown]), read_bind_run, hfind]
  cases closable id s with
  | none => rfl
  | some l =>
      simp only [Option.map_some, read_bind_run, own_taskId]
      show (match s.task? l.taskId with | none => _ | some t => _ : Tx Bool) (ownedBy none id s) = _
      cases s.task? l.taskId with
      | none => rfl
      | some t =>
          dsimp only
          by_cases hdone : t.state = .succeeded
          · rw [if_pos hdone, if_pos hdone]
            rfl
          · rw [if_neg hdone, if_neg hdone, exec_bind_run, exec_bind_run, pure_run,
              closeTask_ownedBy]

theorem remote_close_run (h : Enrolled role worker s) {reason : CloseReason}
    (haccepted : reason = none ∨ reason.known = true) :
    WorkerApi.closeLiveSession x role id reason (ownedBy (some worker.id) id s) =
      .ok (closeFound x id reason (fun t => decide (t.leaseOwner = some worker.id))
        (some worker.id) s) := by
  have hfind : (ownedBy (some worker.id) id s).sessions.find?
      (fun l => l.id = id && l.workerId = some worker.id && l.state.live) =
      (closable id s).map (own (some worker.id) id) := by
    refine find?_ownedBy fun l => ?_
    by_cases hid : l.id = id
    · simp [hid, own_workerId hid]
    · simp [hid]
  unfold WorkerApi.closeLiveSession closeFound
  have hpasses : ¬ (reason.isSome && !reason.known) = true := by
    rcases haccepted with rfl | hknown
    · simp
    · simp [hknown]
  rw [bind_run_ok ((h.ownedBy _ _).identity_ok (Or.inr rfl)), if_neg hpasses, read_bind_run,
    hfind]
  cases closable id s with
  | none => rfl
  | some l =>
      simp only [Option.map_some, read_bind_run, own_taskId]
      show (match s.task? l.taskId with | none => _ | some t => _ : Tx Bool)
        (ownedBy (some worker.id) id s) = _
      cases s.task? l.taskId with
      | none => rfl
      | some t =>
          dsimp only
          by_cases hdone : t.state = .succeeded
          · rw [if_pos hdone, if_pos hdone]
            rfl
          · rw [if_neg hdone, if_neg hdone, exec_bind_run, exec_bind_run, pure_run,
              Lifecycle.remote_closeTask_eq, closeTask_ownedBy]

theorem closable_eq_none :
    closable id s = none ↔ ¬ ∃ l ∈ s.sessions, l.id = id ∧ l.state.live = true := by
  unfold closable
  rw [Table.find?_eq_none]
  simp

theorem closable_eq_some (h : closable id s = some l) :
    l ∈ s.sessions ∧ l.id = id ∧ l.state.live = true := by
  obtain ⟨hl, hp⟩ := Table.find?_eq_some h
  simpa [hl] using hp

/-- A found session ends alike under both owners. -/
theorem shown_setSession (state : SessionState) (s : Store) (owner : Option String) :
    shown id (setSession id state (ownedBy none id s)) =
      shown id (setSession id state (ownedBy owner id s)) := by
  have hown : ∀ (owner : Option String) (l : LiveSession),
      decide ((own owner id l).id = id) = decide (l.id = id) := fun owner l => by simp
  exact shown_setSessions (hown none) (hown owner) fun _ _ => rfl

/-- The core cancels a lease of somebody else, the worker protocol does not. -/
theorem closeTask_cancels {now : Time} {t : Task} (ht : t ∈ s.tasks) (hleased : t.state = .leased) :
    (closeTask now t (some "cancelled") true s).tasks ≠
      (closeTask now t (some "cancelled") false s).tasks := by
  have hends : closeTask now t (some "cancelled") true s =
      endSessionTask now t (some "cancelled") (freeLease t s) := by
    unfold closeTask
    rw [if_neg (by simp [hleased]), if_pos ⟨hleased, rfl⟩]
  have hkeeps : closeTask now t (some "cancelled") false s = s := by
    unfold closeTask
    rw [if_neg (by simp [hleased]), if_neg (by simp)]
  rw [hends, hkeeps]
  intro heq
  let ended (t : Task) : Task :=
    { t.unlease with
      state := .cancelled, errorClass := some "policy"
      errorCode := some "human_input_cancelled", finishedAt := some now }
  have hrow : ended t ∈ s.tasks := by
    rw [← heq]
    exact Table.mem_update_row (p := fun u : Task => u.id = t.id) (f := ended) (fun _ => rfl) ht
      (decide_eq_true rfl)
  have hstate : (ended t).state = t.state := congrArg Task.state (task_eq_of_id hrow ht rfl)
  rw [hleased] at hstate
  cases hstate

/-- Whose lease it is does not matter but to a cancellation of a leased task. -/
theorem closeTask_owned {now : Time} {t : Task} {reason : CloseReason} {owned : Bool}
    (h : ¬ (reason.cancels = true ∧ t.state = .leased ∧ owned = false)) :
    closeTask now t reason (reason.cancels || owned) s = closeTask now t reason owned s := by
  by_cases hleased : t.state = .leased
  · cases owned with
    | true => rw [Bool.or_true]
    | false =>
        have hreason : reason.cancels = false := by
          by_contra hcancels
          exact h ⟨by simpa using hcancels, hleased, rfl⟩
        rw [hreason, Bool.or_false]
  · unfold closeTask
    simp [hleased]

/-- A reason both sides take. -/
theorem close_known_agree_iff (h : Enrolled role worker s) {reason : CloseReason}
    (hknown : reason.known = true) :
    SessionsAgree x role worker.id (.close id reason) s ↔
      ¬ (reason.cancels = true ∧ ∃ l ∈ s.sessions, l.id = id ∧ l.state.live = true ∧
        ∃ t ∈ s.tasks, t.id = l.taskId ∧ t.state = .leased ∧ t.leaseOwner ≠ some worker.id) := by
  refine (agree_iff_of_runs (map_run_ok (core_close_run hknown worker.id))
    (map_run_ok (remote_close_run h (Or.inr hknown)))).trans ?_
  show Decision.ofBool (closeFound x id reason _ none s).1 =
      Decision.ofBool (closeFound x id reason _ (some worker.id) s).1 ∧
    shown id (closeFound x id reason _ none s).2 =
      shown id (closeFound x id reason _ (some worker.id) s).2 ↔ _
  unfold closeFound
  cases hfound : closable id s with
  | none =>
      have hnone := closable_eq_none.mp hfound
      refine iff_of_true ⟨rfl, (shown_ownedBy ..).trans (shown_ownedBy ..).symm⟩ ?_
      rintro ⟨-, l, hl, hid, hlive, -⟩
      exact hnone ⟨l, hl, hid, hlive⟩
  | some l =>
      obtain ⟨hl, hid, hlive⟩ := closable_eq_some hfound
      have honly : ∀ k ∈ s.sessions, k.id = id → k = l := fun k hk hkid =>
        session_eq_of_id hk hl (hkid.trans hid.symm)
      dsimp only
      cases htask : s.task? l.taskId with
      | none =>
          have hnone := Table.find?_eq_none.mp htask
          refine ⟨?_, fun _ => ⟨rfl, shown_setSession ..⟩⟩
          rintro - ⟨-, k, hk, hid, -, t, ht, htid, -⟩
          have hno := hnone t ht
          rw [honly k hk hid] at htid
          simp [htid] at hno
      | some t =>
          obtain ⟨ht, htid⟩ := Store.task?_eq_some.mp htask
          have hthe : ∀ k ∈ s.sessions, k.id = id → ∀ u ∈ s.tasks, u.id = k.taskId → u = t := by
            intro k hk hid u hu huid
            rw [honly k hk hid] at huid
            exact task_eq_of_id hu ht (huid.trans htid.symm)
          dsimp only
          by_cases hdone : t.state = .succeeded
          · rw [if_pos hdone, if_pos hdone]
            refine ⟨?_, fun _ => ⟨rfl, shown_setSession ..⟩⟩
            rintro - ⟨-, k, hk, hid, -, u, hu, huid, hleased, -⟩
            rw [hthe k hk hid u hu huid, hdone] at hleased
            cases hleased
          · rw [if_neg hdone, if_neg hdone]
            by_cases hbad : reason.cancels = true ∧ t.state = .leased ∧
                t.leaseOwner ≠ some worker.id
            · -- the core ends the task of somebody else, and the rows show it
              obtain ⟨hcancels, hleased, howner⟩ := hbad
              obtain rfl : reason = some "cancelled" := of_decide_eq_true hcancels
              refine ⟨fun hsame => ?_, fun hnot => ?_⟩
              · have htasks := congrArg (fun v => v.2.1) hsame.2
                have howned : decide (t.leaseOwner = some worker.id) = false :=
                  decide_eq_false howner
                rw [howned] at htasks
                exact absurd htasks (closeTask_cancels ht hleased)
              · exact absurd ⟨rfl, l, hl, hid, hlive, t, ht, htid, hleased, howner⟩ hnot
            · rw [closeTask_owned (by rwa [decide_eq_false_iff_not])]
              refine ⟨?_, fun _ => ⟨rfl, shown_setSession ..⟩⟩
              rintro - ⟨hr, k, hk, hid, -, u, hu, huid, hleased, howner⟩
              rw [hthe k hk hid u hu huid] at hleased howner
              exact hbad ⟨hr, hleased, howner⟩

/-- A reason the core refuses: the worker protocol refuses it too, unless it is
missing and the worker has such a session to close. -/
theorem close_unknown_agree_iff (h : Enrolled role worker s) {reason : CloseReason}
    (hunknown : reason.known = false) :
    SessionsAgree x role worker.id (.close id reason) s ↔
      ¬ (reason = none ∧ ∃ l ∈ s.sessions, l.id = id ∧ l.state.live = true) := by
  have hcore : (SessionCall.close id reason).core x worker.id (ownedBy none id s) =
      .error (.invalidParameter "invalid session close reason") := by
    refine map_run_error ?_
    unfold closeSession
    rw [if_pos (by simp [hunknown]), raise_run]
  cases reason with
  | some text =>
      have hremote : (SessionCall.close id (some text)).remote x role worker.id
          (ownedBy (some worker.id) id s) =
          .error (.invalidParameter "invalid session close reason") := by
        refine map_run_error ?_
        unfold WorkerApi.closeLiveSession
        rw [bind_run_ok ((h.ownedBy _ _).identity_ok (Or.inr rfl)),
          if_pos (by simp [hunknown]), raise_run]
      exact iff_of_true ((agree_iff_of_errors hcore hremote).mpr rfl) (by simp)
  | none =>
      have hclose : WorkerApi.closeLiveSession x role id none (ownedBy (some worker.id) id s) =
          .ok (closeFound x id none (fun t => decide (t.leaseOwner = some worker.id))
            (some worker.id) s) := remote_close_run h (Or.inl rfl)
      have hremote := map_run_ok (f := Decision.ofBool) hclose
      refine (agree_iff_of_commits (commit_of_error hcore) (commit_of_ok hremote)).trans ?_
      cases hfound : closable id s with
      | none =>
          refine iff_of_true ⟨rfl, (shown_ownedBy ..).trans (shown_ownedBy ..).symm⟩ ?_
          exact fun hlives => closable_eq_none.mp hfound hlives.2
      | some l =>
          refine iff_of_false ?_ fun hno => hno ⟨rfl, l, closable_eq_some hfound⟩
          -- The session is found: the worker is told that it is closed.
          rintro ⟨hdecision, -⟩
          dsimp only at hdecision
          split at hdecision
          · cases hdecision
          · split at hdecision <;> cases hdecision

theorem close_agree_iff (h : Enrolled role worker s) (reason : CloseReason) :
    SessionsAgree x role worker.id (.close id reason) s ↔
      ¬ (reason = none ∧ ∃ l ∈ s.sessions, l.id = id ∧ l.state.live = true) ∧
      ¬ (reason.cancels = true ∧ ∃ l ∈ s.sessions, l.id = id ∧ l.state.live = true ∧
        ∃ t ∈ s.tasks, t.id = l.taskId ∧ t.state = .leased ∧ t.leaseOwner ≠ some worker.id) := by
  cases hknown : reason.known with
  | true =>
      rw [close_known_agree_iff h hknown]
      refine (and_iff_right ?_).symm
      rintro ⟨rfl, -⟩
      cases hknown
  | false =>
      rw [close_unknown_agree_iff h hknown]
      refine (and_iff_left ?_).symm
      rintro ⟨hcancels, -⟩
      rw [CloseReason.known, hcancels] at hknown
      cases hknown

/-! ### Resuming -/

/-- The task a session waits to be resumed with. -/
def resumable? (x : Txn) (id : Uuid) (s : Store) : Option Task :=
  (s.sessions.find? fun l => l.id = id && l.state = .resuming && decide (x.now < l.expiresAt)).bind
    fun l => (s.task? l.taskId).filter fun t => t.state = .waitingInput

theorem resumable?_eq_some {t : Task} : resumable? x id s = some t ↔ Resumable x id t s := by
  constructor
  · intro h
    obtain ⟨l, hl, h⟩ := Option.bind_eq_some_iff.mp h
    obtain ⟨hmem, hp⟩ := Table.find?_eq_some hl
    obtain ⟨ht, hstate⟩ := Option.filter_eq_some_iff.mp h
    obtain ⟨htask, hid⟩ := Store.task?_eq_some.mp ht
    simp only [Bool.and_eq_true, decide_eq_true_eq] at hp hstate
    exact ⟨⟨l, hmem, hp.1.1, hp.1.2, hp.2, hid.symm⟩, htask, hstate⟩
  · rintro ⟨⟨l, hl, hid, hresuming, htimely, htid⟩, ht, hstate⟩
    have hfind : (s.sessions.find? fun l =>
        l.id = id && l.state = .resuming && decide (x.now < l.expiresAt)) = some l := by
      refine Table.find?_eq_of_mem hl (by simp [hid, hresuming, htimely]) fun k hk hp => ?_
      simp only [Bool.and_eq_true, decide_eq_true_eq] at hp
      exact session_eq_of_id hk hl (hp.1.1.trans hid.symm)
    have htask : s.task? l.taskId = some t := Store.task?_eq_some.mpr ⟨ht, htid.symm⟩
    simp [resumable?, hfind, htask, hstate]

/-- `resume_live_session` of the core, once the task is known. -/
theorem core_resume_run (workerId : String) :
    CrawlTrove.resumeLiveSession x id workerId (ownedBy none id s) =
      match resumable? x id s with
      | none => .ok (none, ownedBy none id s)
      | some t =>
          match s.job? t.jobId with
          | none => .ok (none, ownedBy none id s)
          | some j =>
              if j.cancelRequestedAt = none ∧ x.now < j.deadlineAt ∧
                  s.originLeased t.originKey = false ∧ Affordable j then
                (some <$> grantResumed x workerId t j
                  (min j.remainingBytes (responseCap t.normalizedUrl))
                  (min j.remainingArtifacts inlineArtifactCap)) (ownedBy none id s)
              else .ok (none, ownedBy none id s) := by
  have hfind : (ownedBy none id s).sessions.find? (fun l => l.id = id && l.workerId.isNone &&
      l.state = .resuming && decide (x.now < l.expiresAt)) =
      (s.sessions.find? fun l =>
        l.id = id && l.state = .resuming && decide (x.now < l.expiresAt)).map (own none id) := by
    refine find?_ownedBy fun l => ?_
    by_cases hid : l.id = id
    · simp [hid, own_workerId hid]
    · simp [hid]
  unfold CrawlTrove.resumeLiveSession resumable?
  rw [read_bind_run, hfind]
  cases s.sessions.find? fun l =>
      l.id = id && l.state = .resuming && decide (x.now < l.expiresAt) with
  | none => rfl
  | some l =>
      simp only [Option.map_some, Option.bind_some, read_bind_run, own_taskId]
      show (match s.task? l.taskId with | none => _ | some t => _ : Tx (Option ClaimedTask))
        (ownedBy none id s) = _
      cases s.task? l.taskId with
      | none => rfl
      | some t =>
          dsimp only
          rw [read_bind_run]
          show (match s.job? t.jobId with | none => _ | some j => _ : Tx (Option ClaimedTask))
            (ownedBy none id s) = _
          by_cases hwaiting : t.state = .waitingInput
          · simp only [Option.filter_some, hwaiting, decide_true, if_true]
            cases s.job? t.jobId with
            | none => rfl
            | some j =>
                have hspent := not_affordable_iff (j := j) (responseCap_ge t.normalizedUrl)
                dsimp only
                by_cases hcurrent : j.cancelRequestedAt = none ∧ x.now < j.deadlineAt
                · obtain ⟨hcancel, htime⟩ := hcurrent
                  rw [if_neg (by simp [hcancel, not_le.mpr htime]), read_bind_run]
                  show (if s.originLeased t.originKey = true then pure none else _ :
                    Tx (Option ClaimedTask)) (ownedBy none id s) = _
                  cases s.originLeased t.originKey with
                  | true => simp
                  | false =>
                      rw [if_neg Bool.false_ne_true]
                      by_cases haffordable : Affordable j
                      · rw [if_neg (mt hspent.mp (not_not.mpr haffordable)),
                          if_pos ⟨hcancel, htime, rfl, haffordable⟩]
                      · rw [if_pos (hspent.mpr haffordable), pure_run,
                          if_neg fun h => haffordable h.2.2.2]
                · have hstopped : j.cancelRequestedAt.isSome = true ∨ j.deadlineAt ≤ x.now := by
                    rw [not_and_or, not_lt] at hcurrent
                    exact hcurrent.imp_left Option.isSome_iff_ne_none.mpr
                  rw [if_pos (Or.inr hstopped), pure_run,
                    if_neg fun h => hcurrent ⟨h.1, h.2.1⟩]
          · simp only [Option.filter_some, hwaiting, decide_false, Bool.false_eq_true, if_false]
            cases s.job? t.jobId with
            | none => rfl
            | some j =>
                dsimp only
                rw [if_pos (Or.inl hwaiting), pure_run]

/-- A granted resume, or a clash of its permit. -/
theorem grantResumed_cases (workerId : String) (t : Task) (j : Job) (bytes artifacts : ℤ) :
    (permitClash t s ∧ ∃ e, grantResumed x workerId t j bytes artifacts (ownedBy none id s) =
        .error e ∧ decision (.error e) = .error) ∨
      ¬ permitClash t s ∧
        ∃ g s', grantResumed x workerId t j bytes artifacts (ownedBy none id s) = .ok (g, s') := by
  let s' := Store.updateTasks (fun u => u.id = t.id)
    (fun u => u.lease x.now workerId (x.uuid 0) bytes artifacts)
    (reserveBudget t.jobId bytes artifacts (ownedBy none id s))
  have hclash : s'.insertOriginLease (originLease x.now t (x.uuid 0)) = none ↔ permitClash t s :=
    Option.map_eq_none_iff.trans (insert_permit_eq_none x.now (x.uuid 0))
  unfold grantResumed
  rw [exec_bind_run, exec_bind_run]
  cases hinsert : s'.insertOriginLease (originLease x.now t (x.uuid 0)) with
  | none => exact Or.inl ⟨hclash.mp hinsert, _, attempt_bind_run_none hinsert, rfl⟩
  | some s'' =>
      refine Or.inr ⟨fun hno => ?_, _, _, attempt_bind_run_some hinsert⟩
      rw [hclash.mpr hno] at hinsert
      cases hinsert

/-- `resume_live_session` of the core raises on a clash; otherwise it answers. -/
theorem core_resume_cases (workerId : String) :
    (∃ t, Resumable x id t s ∧ Leasable x t s ∧ permitClash t s) ∧
        (∃ e, CrawlTrove.resumeLiveSession x id workerId (ownedBy none id s) = .error e ∧
          decision (.error e) = .error) ∨
      (¬ ∃ t, Resumable x id t s ∧ Leasable x t s ∧ permitClash t s) ∧
        ∃ r s', CrawlTrove.resumeLiveSession x id workerId (ownedBy none id s) = .ok (r, s') ∧
          ((¬ ∃ t, Resumable x id t s) → r = none ∧ s' = ownedBy none id s) := by
  rw [core_resume_run]
  cases hwaits : resumable? x id s with
  | none =>
      have hnone : ¬ ∃ t, Resumable x id t s := by
        rintro ⟨t, ht⟩
        rw [resumable?_eq_some.mpr ht] at hwaits
        cases hwaits
      exact Or.inr ⟨fun ⟨t, ht, _⟩ => hnone ⟨t, ht⟩, none, _, rfl, fun _ => ⟨rfl, rfl⟩⟩
  | some t =>
      have ht := resumable?_eq_some.mp hwaits
      have honly : ∀ u, Resumable x id u s → u = t := by
        intro u hu
        rw [resumable?_eq_some.mpr hu] at hwaits
        exact Option.some.inj hwaits
      have hrefuses : ¬ Leasable x t s →
          ¬ ∃ u, Resumable x id u s ∧ Leasable x u s ∧ permitClash u s := by
        rintro hno ⟨u, hu, hleasable, -⟩
        exact hno (honly u hu ▸ hleasable)
      dsimp only
      cases hjob : s.job? t.jobId with
      | none =>
          refine Or.inr ⟨hrefuses ?_, none, _, rfl, fun _ => ⟨rfl, rfl⟩⟩
          rintro ⟨j, hj, -⟩
          rw [hjob] at hj
          cases hj
      | some j =>
          dsimp only
          split
          · rename_i hpasses
            have hleasable : Leasable x t s := ⟨j, hjob, hpasses⟩
            rcases @grantResumed_cases x s id workerId t j
              (min j.remainingBytes (responseCap t.normalizedUrl))
              (min j.remainingArtifacts inlineArtifactCap) with
              ⟨hclash, e, hrun, he⟩ | ⟨hfree, g, s', hrun⟩
            · exact Or.inl ⟨⟨t, ht, hleasable, hclash⟩, e, map_run_error hrun, he⟩
            · refine Or.inr ⟨?_, some g, s', map_run_ok hrun, fun hnone => absurd ⟨t, ht⟩ hnone⟩
              rintro ⟨u, hu, -, hclash⟩
              exact hfree (honly u hu ▸ hclash)
          · rename_i hfails
            refine Or.inr ⟨hrefuses ?_, none, _, rfl, fun _ => ⟨rfl, rfl⟩⟩
            rintro ⟨k, hk, hpasses⟩
            rw [hjob] at hk
            obtain rfl := Option.some.inj hk
            exact hfails hpasses

/-- `worker_api.resume_live_session` raises whenever there is something to resume. -/
theorem remote_resume_run (h : Enrolled role worker s) (hactive : worker.state = .active) :
    WorkerApi.resumeLiveSession x role id (ownedBy (some worker.id) id s) =
      match resumable? x id s with
      | none => .ok (none, ownedBy (some worker.id) id s)
      | some _ => .error (.ambiguousColumn "deadline_at") := by
  have hfind : (ownedBy (some worker.id) id s).sessions.find? (fun l => l.id = id &&
      l.workerId = some worker.id && l.state = .resuming && decide (x.now < l.expiresAt)) =
      (s.sessions.find? fun l => l.id = id && l.state = .resuming &&
        decide (x.now < l.expiresAt)).map (own (some worker.id) id) := by
    refine find?_ownedBy fun l => ?_
    by_cases hid : l.id = id
    · simp [hid, own_workerId hid]
    · simp [hid]
  unfold WorkerApi.resumeLiveSession resumable?
  rw [bind_run_ok ((h.ownedBy _ _).identity_ok (Or.inl hactive)), read_bind_run, hfind]
  cases s.sessions.find? fun l =>
      l.id = id && l.state = .resuming && decide (x.now < l.expiresAt) with
  | none => rfl
  | some l =>
      simp only [Option.map_some, Option.bind_some, read_bind_run, own_taskId]
      show (match s.task? l.taskId with | none => _ | some t => _ : Tx (Option ClaimedTask))
        (ownedBy (some worker.id) id s) = _
      cases s.task? l.taskId with
      | none => rfl
      | some t =>
          dsimp only
          by_cases hwaiting : t.state = .waitingInput
          · simp [Option.filter_some, hwaiting]
          · simp [Option.filter_some, hwaiting]

theorem resume_agree_iff (h : Enrolled role worker s) :
    SessionsAgree x role worker.id (.resume id) s ↔
      (worker.state = .active ∧ ¬ ∃ t, Resumable x id t s) ∨
        ∃ t, Resumable x id t s ∧ Leasable x t s ∧ permitClash t s := by
  -- The worker protocol raises, or there is nothing to resume.
  have hremote : (∃ e, (SessionCall.resume id).remote x role worker.id
        (ownedBy (some worker.id) id s) = .error e ∧ decision (.error e) = .error ∧
        ¬ (worker.state = .active ∧ ¬ ∃ t, Resumable x id t s)) ∨
      ((SessionCall.resume id).remote x role worker.id (ownedBy (some worker.id) id s) =
        .ok (.refused, ownedBy (some worker.id) id s) ∧
        worker.state = .active ∧ ¬ ∃ t, Resumable x id t s) := by
    by_cases hactive : worker.state = .active
    · have hrun := @remote_resume_run x role worker s id h hactive
      cases hwaits : resumable? x id s with
      | none =>
          rw [hwaits] at hrun
          refine Or.inr ⟨map_run_ok hrun, hactive, ?_⟩
          rintro ⟨t, ht⟩
          rw [resumable?_eq_some.mpr ht] at hwaits
          cases hwaits
      | some t =>
          rw [hwaits] at hrun
          exact Or.inl ⟨_, map_run_error hrun, rfl,
            fun hnot => hnot.2 ⟨t, resumable?_eq_some.mp hwaits⟩⟩
    · obtain ⟨message, hidentity⟩ := (h.ownedBy (some worker.id) id).identity_error hactive
      have hrun : WorkerApi.resumeLiveSession x role id (ownedBy (some worker.id) id s) =
          .error (.insufficientPrivilege message) := by
        unfold WorkerApi.resumeLiveSession
        rw [bind_run_error hidentity]
      exact Or.inl ⟨_, map_run_error hrun, rfl, fun hnot => hactive hnot.1⟩
  rcases @core_resume_cases x s id worker.id with
    ⟨hclash, e, hcore, he⟩ | ⟨hfree, r, s', hcore, hquiet⟩
  · rcases hremote with ⟨e', hremote, he', -⟩ | ⟨-, -, hnone⟩
    · refine iff_of_true ?_ (Or.inr hclash)
      exact (agree_iff_of_errors (map_run_error hcore) hremote).mpr (he.trans he'.symm)
    · obtain ⟨t, ht, -⟩ := hclash
      exact absurd ⟨t, ht⟩ hnone
  · rcases hremote with ⟨e', hremote, he', hnot⟩ | ⟨hremote, hactive, hnone⟩
    · refine iff_of_false ?_ (not_or.mpr ⟨hnot, hfree⟩)
      have hanswers : Decision.ofClaim r ≠ .error := by cases r <;> simp [Decision.ofClaim]
      exact differ_of_error (map_run_ok hcore) hanswers hremote he'
    · obtain ⟨rfl, rfl⟩ := hquiet hnone
      refine iff_of_true ?_ (Or.inl ⟨hactive, hnone⟩)
      exact (agree_iff_of_runs (map_run_ok hcore) hremote).mpr
        ⟨rfl, (shown_ownedBy ..).trans (shown_ownedBy ..).symm⟩

/-! ### Starting -/

theorem session_clashes {k l : LiveSession} :
    Clashes k l = true ↔ k.id = l.id ∨ k.taskId = l.taskId := by
  show (decide (k.id = l.id) || decide (k.taskId = l.taskId)) = true ↔ _
  simp

/-- A session with this identifier or for this task is there already. -/
def sessionClash (id taskId : Uuid) (s : Store) : Prop :=
  ∃ l ∈ s.sessions, l.id = id ∨ l.taskId = taskId

theorem insert_session_eq_none {owner : Option String} {l : LiveSession} :
    (ownedBy owner id s).insertSession l = none ↔ sessionClash l.id l.taskId s := by
  refine Option.map_eq_none_iff.trans (Table.insert?_eq_none.trans ?_)
  simp only [session_clashes]
  constructor
  · rintro ⟨k, hk, hclash⟩
    obtain ⟨k₀, hk₀, rfl⟩ := mem_ownedBy.mp hk
    exact ⟨k₀, hk₀, by simpa using hclash⟩
  · rintro ⟨k, hk, hclash⟩
    exact ⟨own owner id k, mem_ownedBy.mpr ⟨k, hk, rfl⟩, by simpa using hclash⟩

/-- A parked task looks the same whoever owns its session. -/
theorem shown_parkTask {owner : Option String} {l l' : LiveSession} {s₁ s₂ : Store} (now : Time)
    (f : FencedTask) (code : String) (h₁ : (ownedBy none id s).insertSession l = some s₁)
    (h₂ : (ownedBy owner id s).insertSession l' = some s₂) (hl : own none id l = own none id l') :
    shown id (parkTask now f code s₁) = shown id (parkTask now f code s₂) := by
  obtain ⟨T₁, hT₁, rfl⟩ := Option.map_eq_some_iff.mp h₁
  obtain ⟨T₂, hT₂, rfl⟩ := Option.map_eq_some_iff.mp h₂
  obtain ⟨-, hrows₁⟩ := Table.insert?_eq_some.mp hT₁
  obtain ⟨-, hrows₂⟩ := Table.insert?_eq_some.mp hT₂
  have hsessions : T₁.update (fun _ => true) (own none id) (key_own none id) =
      T₂.update (fun _ => true) (own none id) (key_own none id) := by
    apply Table.ext
    show T₁.rows.map (own none id) = T₂.rows.map (own none id)
    rw [hrows₁, hrows₂, List.map_append, List.map_append, List.map_singleton, List.map_singleton,
      hl]
    congr 1
    refine Eq.trans List.map_map (Eq.trans (List.map_congr_left fun k _ => ?_) List.map_map.symm)
    exact own_own.trans own_own.symm
  show (T₁.update (fun _ => true) (own none id) (key_own none id), _) =
    (T₂.update (fun _ => true) (own none id) (key_own none id), _)
  rw [hsessions]
  rfl

/-- The fence of a start, under the worker's name. -/
theorem activeTask_eq_some {taskId token : Uuid} {f : FencedTask} :
    WorkerApi.activeTask x.now worker taskId token s = some f ↔
      s.fencedTask taskId token = some f ∧ f.task.leaseOwner = some worker.id ∧
        Current x.now f := by
  constructor
  · intro h
    obtain ⟨hactive, hid, htoken⟩ := Lifecycle.activeTask_ok h
    have hfence : s.fencedTask taskId token = some f := by
      rw [← hid, ← htoken]
      exact hactive.toFenced.fencedTask_eq
    refine ⟨hfence, ?_, hactive.uncancelled, hactive.timely⟩
    unfold WorkerApi.activeTask at h
    cases howned : WorkerApi.ownedTask worker taskId token s with
    | none =>
        rw [howned] at h
        cases h
    | some t =>
        obtain ⟨ht, hp⟩ := Table.find?_eq_some howned
        simp only [Bool.and_eq_true, decide_eq_true_eq] at hp
        rw [task_eq_of_id hactive.mem ht (hid.trans hp.1.1.1.symm)]
        exact hp.2
  · rintro ⟨hfence, howner, hcurrent⟩
    rw [activeTask_of_fenced hfence howner, if_pos hcurrent]

/-- The session a start inserts. -/
def startedSession (x : Txn) (taskId : Uuid) (backend : String) (owner : Option String)
    (ttlSeconds : Option ℤ) (f : FencedTask) : LiveSession :=
  { id := x.uuid 0, taskId, backend, workerId := owner, state := .waiting
    expiresAt := WorkerApi.sessionExpiry x.now ttlSeconds f.job.deadlineAt }

variable {taskId token : Uuid} {backend : String} {ttlSeconds : Option ℤ}

/-- A start is refused, or inserts its session and parks the task. -/
def StartRuns (x : Txn) (worker : Worker) (taskId token : Uuid) (backend : String)
    (ttlSeconds : Option ℤ) (owner : Option String) (s : Store)
    (r : Except DbError (Decision × Store)) : Prop :=
  let s' := ownedBy owner (x.uuid 0) s
  (¬ Startable x worker taskId token backend ttlSeconds s ∧
      ((∃ message, r = .error (.invalidParameter message)) ∨ r = .ok (.refused, s'))) ∨
    ∃ f, Startable x worker taskId token backend ttlSeconds s ∧
      WorkerApi.activeTask x.now worker taskId token s = some f ∧
      match s'.insertSession (startedSession x taskId backend owner ttlSeconds f) with
      | none => r = .error .integrityViolation
      | some s'' => r = .ok (.granted none, parkTask x.now f "human_input_required" s'')

theorem core_start_runs {ttlSeconds : ℤ} (hnamed : worker.id ≠ "") :
    StartRuns x worker taskId token backend (some ttlSeconds) none s
      ((SessionCall.start taskId token backend (some ttlSeconds)).core x worker.id
        (ownedBy none (x.uuid 0) s)) := by
  show StartRuns _ _ _ _ _ _ _ _
    (((fun _ => Decision.granted none) <$> waitForInputLocal x taskId token backend worker.id
      ttlSeconds) (ownedBy none (x.uuid 0) s))
  have hrefused : ∀ message, ¬ Startable x worker taskId token backend (some ttlSeconds) s →
      waitForInputLocal x taskId token backend worker.id ttlSeconds (ownedBy none (x.uuid 0) s) =
        .error (.invalidParameter message) →
          StartRuns x worker taskId token backend (some ttlSeconds) none s
            (((fun _ => Decision.granted none) <$> waitForInputLocal x taskId token backend
              worker.id ttlSeconds) (ownedBy none (x.uuid 0) s)) :=
    fun message hno hrun => Or.inl ⟨hno, Or.inl ⟨message, map_run_error hrun⟩⟩
  by_cases hvalid : validTtl ttlSeconds = true ∧ validBackend backend = true
  · obtain ⟨httl, hbackend⟩ := hvalid
    have hrun : waitForInputLocal x taskId token backend worker.id ttlSeconds
        (ownedBy none (x.uuid 0) s) =
        (s.fencedTask taskId token).elim
          (.error (.invalidParameter "task lease is no longer active for this worker")) fun f =>
            if f.task.leaseOwner = some worker.id ∧ Current x.now f then
              ((ownedBy none (x.uuid 0) s).insertSession
                (startedSession x taskId backend none (some ttlSeconds) f)).elim
                (.error .integrityViolation) fun s' =>
                  .ok (startedSession x taskId backend none (some ttlSeconds) f,
                    parkTask x.now f "human_input_required" s')
            else .error (.invalidParameter "task lease is no longer active for this worker") := by
      unfold waitForInputLocal
      rw [if_neg (by simp [httl, hbackend, hnamed]), read_bind_run]
      have hsame : (ownedBy none (x.uuid 0) s).fencedTask taskId token = s.fencedTask taskId token :=
        rfl
      rw [hsame]
      cases s.fencedTask taskId token with
      | none => rfl
      | some f =>
          rw [Option.elim_some]
          dsimp only
          by_cases hpasses : f.task.leaseOwner = some worker.id ∧ Current x.now f
          · obtain ⟨howner, hcancel, htime⟩ := hpasses
            rw [if_neg (by simp [howner, hcancel, not_le.mpr htime]),
              if_pos ⟨howner, hcancel, htime⟩]
            cases hinsert : (ownedBy none (x.uuid 0) s).insertSession
              (startedSession x taskId backend none (some ttlSeconds) f) with
            | none => exact attempt_bind_run_none hinsert
            | some s' => exact attempt_bind_run_some hinsert
          · have hfails : f.task.leaseOwner ≠ some worker.id ∨
                f.job.cancelRequestedAt.isSome = true ∨ f.job.deadlineAt ≤ x.now := by
              rw [not_and_or, Current, not_and_or, not_lt] at hpasses
              exact hpasses.imp_right fun h => h.imp_left Option.isSome_iff_ne_none.mpr
            rw [if_pos hfails, if_neg hpasses, raise_run]
    have hstartable : ∀ {f}, WorkerApi.activeTask x.now worker taskId token s = some f →
        Startable x worker taskId token backend (some ttlSeconds) s :=
      fun hf => ⟨hbackend, httl, Option.isSome_iff_exists.mpr ⟨_, hf⟩⟩
    cases hfence : s.fencedTask taskId token with
    | none =>
        rw [hfence] at hrun
        refine hrefused _ ?_ hrun
        rintro ⟨-, -, hsome⟩
        obtain ⟨f, hf⟩ := Option.isSome_iff_exists.mp hsome
        rw [(activeTask_eq_some.mp hf).1] at hfence
        cases hfence
    | some f =>
        rw [hfence, Option.elim_some] at hrun
        by_cases hpasses : f.task.leaseOwner = some worker.id ∧ Current x.now f
        · have hf := activeTask_eq_some.mpr ⟨hfence, hpasses⟩
          refine Or.inr ⟨f, hstartable hf, hf, ?_⟩
          rw [if_pos hpasses] at hrun
          cases hinsert : (ownedBy none (x.uuid 0) s).insertSession
            (startedSession x taskId backend none (some ttlSeconds) f) with
          | none =>
              rw [hinsert] at hrun
              exact map_run_error hrun
          | some s' =>
              rw [hinsert] at hrun
              exact map_run_ok hrun
        · refine hrefused _ ?_ (hrun.trans (if_neg hpasses))
          rintro ⟨-, -, hsome⟩
          obtain ⟨g, hg⟩ := Option.isSome_iff_exists.mp hsome
          obtain ⟨hfence', hpasses'⟩ := activeTask_eq_some.mp hg
          rw [hfence] at hfence'
          exact hpasses (Option.some.inj hfence' ▸ hpasses')
  · refine hrefused "invalid session backend or worker ID" (fun h => hvalid ⟨h.2.1, h.1⟩) ?_
    unfold waitForInputLocal
    rw [if_pos, raise_run]
    rw [not_and_or] at hvalid
    rcases hvalid with h | h <;> simp [h]

theorem remote_start_runs (h : Enrolled role worker s) (hactive : worker.state = .active) :
    StartRuns x worker taskId token backend ttlSeconds (some worker.id) s
      ((SessionCall.start taskId token backend ttlSeconds).remote x role worker.id
        (ownedBy (some worker.id) (x.uuid 0) s)) := by
  let s' := ownedBy (some worker.id) (x.uuid 0) s
  show StartRuns _ _ _ _ _ _ _ _
    (((fun started : Option LiveSession => Decision.ofBool started.isSome) <$>
      WorkerApi.startLiveSession x role taskId token backend worker.id ttlSeconds
        "human_input_required") s')
  have hidentity : WorkerApi.identity role false s' = .ok (worker, s') :=
    (h.ownedBy (some worker.id) (x.uuid 0)).identity_ok (Or.inl hactive)
  by_cases hvalid : validBackend backend = true ∧ ttlSeconds.all validTtl = true
  · obtain ⟨hbackend, httl⟩ := hvalid
    have hrun : WorkerApi.startLiveSession x role taskId token backend worker.id ttlSeconds
        "human_input_required" s' =
        (WorkerApi.activeTask x.now worker taskId token s).elim (.ok (none, s')) fun f =>
            (s'.insertSession
              (startedSession x taskId backend (some worker.id) ttlSeconds f)).elim
              (.error .integrityViolation) fun s'' =>
                .ok (some (startedSession x taskId backend (some worker.id) ttlSeconds f),
                  parkTask x.now f "human_input_required" s'') := by
      unfold WorkerApi.startLiveSession
      rw [bind_run_ok hidentity, if_neg (by simp [hbackend, httl]), read_bind_run]
      have hsame : WorkerApi.activeTask x.now worker taskId token s' =
          WorkerApi.activeTask x.now worker taskId token s := rfl
      rw [hsame]
      cases hf : WorkerApi.activeTask x.now worker taskId token s with
      | none => rfl
      | some f =>
          -- The session cannot have expired: the deadline and the time to live lie ahead.
          have hahead : ¬ WorkerApi.sessionExpiry x.now ttlSeconds f.job.deadlineAt ≤ x.now := by
            have hdeadline := (activeTask_eq_some.mp hf).2.2.2
            cases ttlSeconds with
            | none => exact not_le.mpr hdeadline
            | some ttl =>
                have hlives : x.now < x.now + seconds ttl := by
                  simp only [Option.all_some, validTtl, Bool.and_eq_true,
                    decide_eq_true_eq] at httl
                  unfold seconds
                  linarith
                exact not_le.mpr (lt_min hlives hdeadline)
          rw [Option.elim_some]
          dsimp only
          rw [if_neg hahead]
          cases hinsert : s'.insertSession
            (startedSession x taskId backend (some worker.id) ttlSeconds f) with
          | none => exact attempt_bind_run_none hinsert
          | some s'' => exact attempt_bind_run_some hinsert
    cases hf : WorkerApi.activeTask x.now worker taskId token s with
    | none =>
        rw [hf] at hrun
        refine Or.inl ⟨?_, Or.inr (map_run_ok hrun)⟩
        rintro ⟨-, -, hsome⟩
        rw [hf] at hsome
        cases hsome
    | some f =>
        rw [hf] at hrun
        refine Or.inr ⟨f, ⟨hbackend, httl, by rw [hf]; rfl⟩, hf, ?_⟩
        show match s'.insertSession _ with | none => _ | some s'' => _
        rw [Option.elim_some] at hrun
        cases hinsert : s'.insertSession
          (startedSession x taskId backend (some worker.id) ttlSeconds f) with
        | none =>
            rw [hinsert] at hrun
            exact map_run_error hrun
        | some s'' =>
            rw [hinsert] at hrun
            exact map_run_ok hrun
  · refine Or.inl ⟨fun h => hvalid ⟨h.1, h.2.1⟩,
      Or.inl ⟨"invalid live session request", map_run_error ?_⟩⟩
    unfold WorkerApi.startLiveSession
    rw [bind_run_ok hidentity, if_pos, raise_run]
    rw [not_and_or] at hvalid
    rcases hvalid with h | h <;> simp [h]

theorem startedSession_own (owner : Option String) (f : FencedTask) :
    own none (x.uuid 0) (startedSession x taskId backend owner ttlSeconds f) =
      startedSession x taskId backend none ttlSeconds f := by
  simp [own, startedSession]

theorem decision_refused {r : Except DbError (Decision × Store)} {s' : Store}
    {call : Tx Decision} (hcall : call s' = r)
    (h : (∃ message, r = .error (.invalidParameter message)) ∨ r = .ok (.refused, s')) :
    ∃ d, commit call s' = (d, s') ∧ decision d = .refused := by
  rcases h with ⟨message, rfl⟩ | rfl
  · exact ⟨_, commit_of_error hcall, rfl⟩
  · exact ⟨_, commit_of_ok hcall, rfl⟩

theorem remote_start_error (h : Enrolled role worker s) (hdraining : worker.state ≠ .active) :
    ∃ message, (SessionCall.start taskId token backend ttlSeconds).remote x role worker.id
      (ownedBy (some worker.id) (x.uuid 0) s) = .error (.insufficientPrivilege message) := by
  obtain ⟨message, hidentity⟩ := (h.ownedBy (some worker.id) (x.uuid 0)).identity_error hdraining
  refine ⟨message, map_run_error ?_⟩
  unfold WorkerApi.startLiveSession
  rw [bind_run_error hidentity]

/-- Both sides park the lease of an active worker alike. -/
theorem start_active_agrees {ttl : ℤ} (h : Enrolled role worker s)
    (hactive : worker.state = .active) :
    SessionsAgree x role worker.id (.start taskId token backend (some ttl)) s := by
  have hcore := @core_start_runs x worker s taskId token backend ttl h.named
  have hremote := @remote_start_runs x role worker s taskId token backend (some ttl) h hactive
  rcases hcore with ⟨hno, hcore⟩ | ⟨f, hstart, hf, hcore⟩
  · rcases hremote with ⟨-, hremote⟩ | ⟨-, hstart, -⟩
    · obtain ⟨d, hcommit, hd⟩ := decision_refused rfl hcore
      obtain ⟨d', hcommit', hd'⟩ := decision_refused rfl hremote
      rw [agree_iff_of_commits hcommit hcommit']
      exact ⟨hd.trans hd'.symm, (shown_ownedBy ..).trans (shown_ownedBy ..).symm⟩
    · exact absurd hstart hno
  · rcases hremote with ⟨hno, -⟩ | ⟨g, -, hg, hremote⟩
    · exact absurd hstart hno
    · -- both find the same lease, so only the inserts can differ, and they clash alike
      rw [hf] at hg
      obtain rfl := Option.some.inj hg
      have hclash : ∀ {owner : Option String},
          (ownedBy owner (x.uuid 0) s).insertSession
            (startedSession x taskId backend owner (some ttl) f) = none ↔
            sessionClash (x.uuid 0) taskId s := insert_session_eq_none
      cases hinsert : (ownedBy none (x.uuid 0) s).insertSession
          (startedSession x taskId backend none (some ttl) f) with
      | none =>
          rw [hinsert] at hcore
          rw [hclash.mpr (hclash.mp hinsert)] at hremote
          exact (agree_iff_of_errors hcore hremote).mpr rfl
      | some s₁ =>
          rw [hinsert] at hcore
          cases hinsert' : (ownedBy (some worker.id) (x.uuid 0) s).insertSession
              (startedSession x taskId backend (some worker.id) (some ttl) f) with
          | none =>
              rw [hclash.mpr (hclash.mp hinsert')] at hinsert
              cases hinsert
          | some s₂ =>
              rw [hinsert'] at hremote
              refine (agree_iff_of_runs hcore hremote).mpr ⟨rfl, ?_⟩
              exact shown_parkTask x.now f _ hinsert hinsert'
                ((startedSession_own none f).trans (startedSession_own (some worker.id) f).symm)

/-- A draining worker is refused, and the core refuses it only what clashes. -/
theorem start_draining_agree_iff {ttl : ℤ} (h : Enrolled role worker s)
    (hdraining : worker.state ≠ .active) :
    SessionsAgree x role worker.id (.start taskId token backend (some ttl)) s ↔
      Startable x worker taskId token backend (some ttl) s ∧
        ∃ l ∈ s.sessions, l.id = x.uuid 0 ∨ l.taskId = taskId := by
  have hcore := @core_start_runs x worker s taskId token backend ttl h.named
  obtain ⟨message, hremote⟩ := @remote_start_error x role worker s taskId token backend
    (some ttl) h hdraining
  rcases hcore with ⟨hno, hcore⟩ | ⟨f, hstart, -, hcore⟩
  · refine iff_of_false ?_ fun hclash => hno hclash.1
    obtain ⟨d, hcommit, hd⟩ := decision_refused rfl hcore
    rw [agree_iff_of_commits hcommit (commit_of_error hremote), hd]
    rintro ⟨hdecision, -⟩
    cases hdecision
  · -- the worker protocol raises, so both agree only if the insert of the core raises too
    have hclash : (ownedBy none (x.uuid 0) s).insertSession
        (startedSession x taskId backend none (some ttl) f) = none ↔
        sessionClash (x.uuid 0) taskId s := insert_session_eq_none
    cases hinsert : (ownedBy none (x.uuid 0) s).insertSession
        (startedSession x taskId backend none (some ttl) f) with
    | none =>
        rw [hinsert] at hcore
        exact iff_of_true ((agree_iff_of_errors hcore hremote).mpr rfl)
          ⟨hstart, hclash.mp hinsert⟩
    | some s₁ =>
        rw [hinsert] at hcore
        refine iff_of_false (differ_of_error hcore (by simp) hremote rfl) fun hboth => ?_
        rw [hclash.mpr hboth.2] at hinsert
        cases hinsert

theorem start_given_agree_iff {ttl : ℤ} (h : Enrolled role worker s) :
    SessionsAgree x role worker.id (.start taskId token backend (some ttl)) s ↔
      worker.state = .active ∨
        Startable x worker taskId token backend (some ttl) s ∧
          ∃ l ∈ s.sessions, l.id = x.uuid 0 ∨ l.taskId = taskId := by
  by_cases hactive : worker.state = .active
  · exact iff_of_true (start_active_agrees h hactive) (Or.inl hactive)
  · rw [start_draining_agree_iff h hactive]
    exact (or_iff_right hactive).symm

/-- Without a time to live the core refuses, and the worker protocol does only
what it refuses for other reasons. -/
theorem start_missing_agree_iff (h : Enrolled role worker s) :
    SessionsAgree x role worker.id (.start taskId token backend none) s ↔
      worker.state = .active ∧ ¬ Startable x worker taskId token backend none s := by
  have hcore : (SessionCall.start taskId token backend none).core x worker.id
      (ownedBy none (x.uuid 0) s) = .error (.invalidParameter "session TTL is missing") := rfl
  by_cases hactive : worker.state = .active
  · have hremote := @remote_start_runs x role worker s taskId token backend none h hactive
    rw [and_iff_right hactive]
    rcases hremote with ⟨hno, hremote⟩ | ⟨f, hstart, -, hremote⟩
    · refine iff_of_true ?_ hno
      obtain ⟨d, hcommit, hd⟩ := decision_refused rfl hremote
      refine (agree_iff_of_commits (commit_of_error hcore) hcommit).mpr ⟨hd.symm, ?_⟩
      exact (shown_ownedBy ..).trans (shown_ownedBy ..).symm
    · refine iff_of_false ?_ fun hno => hno hstart
      cases hinsert : (ownedBy (some worker.id) (x.uuid 0) s).insertSession
          (startedSession x taskId backend (some worker.id) none f) with
      | none =>
          rw [hinsert] at hremote
          rw [agree_iff_of_commits (commit_of_error hcore) (commit_of_error hremote)]
          rintro ⟨hdecision, -⟩
          cases hdecision
      | some s' =>
          rw [hinsert] at hremote
          rw [agree_iff_of_commits (commit_of_error hcore) (commit_of_ok hremote)]
          rintro ⟨hdecision, -⟩
          cases hdecision
  · refine iff_of_false ?_ fun hboth => hactive hboth.1
    obtain ⟨message, hremote⟩ := @remote_start_error x role worker s taskId token backend none h
      hactive
    rw [agree_iff_of_commits (commit_of_error hcore) (commit_of_error hremote)]
    rintro ⟨hdecision, -⟩
    cases hdecision

theorem start_agree_iff (h : Enrolled role worker s) :
    SessionsAgree x role worker.id (.start taskId token backend ttlSeconds) s ↔
      (SessionCall.start taskId token backend ttlSeconds).AgreesOn x worker s := by
  unfold SessionCall.AgreesOn SessionCall.Clashes
  cases ttlSeconds with
  | none => simp [start_missing_agree_iff h]
  | some ttl => simp [start_given_agree_iff h]

end Calls

/-- The core on its own session and an enrolled worker on its own agree exactly
when `AgreesOn` holds. -/
theorem sessions_agree_iff (x : Txn) (role : String) (worker : Worker) (call : SessionCall)
    (s : Store) (h : Enrolled role worker s) :
    SessionsAgree x role worker.id call s ↔ call.AgreesOn x worker s := by
  cases call with
  | start taskId token backend ttlSeconds => exact start_agree_iff h
  | touch id => exact touch_agree_iff h
  | close id reason => exact close_agree_iff h reason
  | resume id => exact resume_agree_iff h
  | finish id => exact finish_agree_iff h

/-! ## Samples -/

/-- The seed of a crawl is parked under session 21 and its session asked to resume. -/
def parked : Store :=
  run Sample.identity {}
    [Sample.enrol, Sample.submit, Sample.remoteClaim,
      ⟨reportTxn, .remote "worker_edge"
        (.startLiveSession 2 11 "owned" "edge" (some 900) "human_input_required")⟩,
      ⟨reportTxn, .requestResume 21⟩]

/-- The enrolled worker of the sample. -/
def edge : Worker :=
  { id := "edge", dbRole := "worker_edge", capabilities := ["http"], protocolVersion := 1
    state := .active, artifactBucket := "crawl", artifactPrefix := "edge/" }

theorem edge_enrolled (s : Store) (h : edge ∈ s.workers) : Enrolled "worker_edge" edge s :=
  ⟨h, rfl, rfl, Or.inl rfl, by decide⟩

theorem sessions_agree_close :
    SessionsAgree reportTxn "worker_edge" "edge" (.close 21 (some "expired")) parked :=
  (sessions_agree_iff reportTxn "worker_edge" edge (.close 21 (some "expired")) parked
    (edge_enrolled parked (List.mem_singleton.mpr rfl))).mpr <|
    And.intro (fun h => by cases h.1) fun h => absurd h.1 (by decide)

/-- The core resumes the session, the worker protocol raises. -/
theorem sessions_differ_resume :
    ¬ SessionsAgree reportTxn "worker_edge" "edge" (.resume 21) parked := by
  rintro ⟨hdecision, -⟩
  revert hdecision
  decide

end Protocol

end CrawlTrove
