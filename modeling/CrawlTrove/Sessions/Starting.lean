import CrawlTrove.Protocol.Session

/-!
# Parking a lease

A worker that needs a human parks its lease under a new live session. The row
of an earlier session of the task stays, and `live_sessions` admits one row a
task: `starts_iff` says that a start by the holder of a current lease succeeds
exactly when the task never had a session.
-/

namespace CrawlTrove

open Relational Transaction

open Lifecycle Protocol

namespace Sessions

/-- Who asks for a session. -/
inductive Caller
  | core (workerId : String)
  | remote (role : String) (worker : Worker)

/-- The request for a session by this caller. -/
def Caller.start (taskId token : Uuid) (backend : String) (ttlSeconds : ℤ) : Caller → Call
  | .core workerId => .waitForInputLocal taskId token backend workerId ttlSeconds
  | .remote role worker =>
      .remote role (.startLiveSession taskId token backend worker.id (some ttlSeconds)
        "human_input_required")

/-- The caller holds the lease `f`. -/
def Caller.Holds (f : FencedTask) (s : Store) : Caller → Prop
  | .core workerId => workerId ≠ "" ∧ f.task.leaseOwner = some workerId
  | .remote role worker => Enrolled role worker s ∧ f.task.leaseOwner = some worker.id

/-- A remote worker must not be draining. -/
def Caller.Admitted : Caller → Prop
  | .core _ => True
  | .remote _ worker => worker.state = .active

section Start

variable {url : UrlIdentity} {x : Txn} {s : Store} {f : FencedTask} {taskId token : Uuid}
  {backend : String} {ttlSeconds : ℤ}

/-- A session is inserted unless one of its id or task exists. -/
theorem insertSession_cases (l : LiveSession) (hfresh : ∀ k ∈ s.sessions, k.id ≠ l.id) :
    (∃ T, s.insertSession l = some { s with sessions := T } ∧
        ∀ k ∈ s.sessions, k.taskId ≠ l.taskId) ∨
      s.insertSession l = none ∧ ∃ k ∈ s.sessions, k.taskId = l.taskId := by
  unfold Store.insertSession
  cases hinsert : s.sessions.insert? l with
  | none =>
      obtain ⟨k, hk, hclash⟩ := Table.insert?_eq_none.mp hinsert
      have hsame : k.id = l.id ∨ k.taskId = l.taskId := by
        simpa [Clashes, Keyed.clash, Keyed.key] using hclash
      exact Or.inr ⟨rfl, k, hk, hsame.resolve_left (hfresh k hk)⟩
  | some T =>
      refine Or.inl ⟨T, rfl, fun k hk htask => ?_⟩
      have hfree := Table.insert?_fresh hinsert k hk
      simp [Clashes, Keyed.clash, Keyed.key, htask] at hfree

/-- A transaction that inserts its session and then only parks succeeds if the
insert does. -/
theorem commit_started {α : Type} (l : LiveSession) (park : Store → Store) (a : α)
    (hfresh : ∀ k ∈ s.sessions, k.id ≠ l.id) :
    let start : Tx α := do
      attempt .integrityViolation (Store.insertSession l)
      exec park
      return a
    (∃ s', start s = .ok (a, s')) ∧ (∀ k ∈ s.sessions, k.taskId ≠ l.taskId) ∨
      start s = .error .integrityViolation ∧ ¬ ∀ k ∈ s.sessions, k.taskId ≠ l.taskId := by
  intro start
  rcases insertSession_cases l hfresh with ⟨T, hinsert, hnone⟩ | ⟨hinsert, k, hk, htask⟩
  · exact Or.inl ⟨⟨park { s with sessions := T }, attempt_bind_run_some hinsert⟩, hnone⟩
  · exact Or.inr ⟨attempt_bind_run_none hinsert, fun hnone => hnone k hk htask⟩

theorem reply_of_ok {r : Request} {b : Bool} {s' : Store}
    (h : r.call.body url r.txn s = .ok (b, s')) : reply url r s = .ok b := by
  unfold reply
  rw [commit_of_ok h]

theorem reply_of_error {r : Request} {e : DbError} (h : r.call.body url r.txn s = .error e) :
    reply url r s = .error e := by
  unfold reply
  rw [commit_of_error h]

/-- A start through the core. -/
theorem core_starts_iff (url : UrlIdentity) {workerId : String}
    (hfence : s.fencedTask taskId token = some f) (hcurrent : Current x.now f) (hnamed : workerId ≠ "")
    (howner : f.task.leaseOwner = some workerId) (hbackend : validBackend backend = true)
    (httl : validTtl ttlSeconds = true) (hfresh : ∀ l ∈ s.sessions, l.id ≠ x.uuid 0) :
    reply url ⟨x, .waitForInputLocal taskId token backend workerId ttlSeconds⟩ s = .ok true ↔
      ∀ l ∈ s.sessions, l.taskId ≠ taskId := by
  obtain ⟨hcancel, htime⟩ := hcurrent
  let l : LiveSession :=
    { id := x.uuid 0, taskId, backend, workerId := none, state := .waiting
      expiresAt := min (x.now + seconds ttlSeconds) f.job.deadlineAt }
  have hrun : waitForInputLocal x taskId token backend workerId ttlSeconds s = (do
      attempt .integrityViolation (Store.insertSession l)
      exec (parkTask x.now f "human_input_required")
      return l : Tx LiveSession) s := by
    unfold waitForInputLocal
    rw [if_neg (by simp [httl, hbackend, hnamed]), read_bind_run, hfence]
    dsimp only
    rw [if_neg (by simp [howner, hcancel, not_le.mpr htime])]
  rcases commit_started l (parkTask x.now f "human_input_required") l hfresh with
    ⟨⟨s', hok⟩, hnone⟩ | ⟨herror, hsome⟩
  · exact iff_of_true (reply_of_ok (map_run_ok (hrun.trans hok))) hnone
  · refine iff_of_false (fun hreply => ?_) hsome
    rw [reply_of_error (map_run_error (hrun.trans herror))] at hreply
    cases hreply

/-- A start through the worker protocol. -/
theorem remote_starts_iff {role : String} {worker : Worker}
    (hfence : s.fencedTask taskId token = some f) (hcurrent : Current x.now f)
    (henrolled : Enrolled role worker s) (howner : f.task.leaseOwner = some worker.id)
    (hbackend : validBackend backend = true) (httl : validTtl ttlSeconds = true)
    (hfresh : ∀ l ∈ s.sessions, l.id ≠ x.uuid 0) :
    reply url ⟨x, .remote role (.startLiveSession taskId token backend worker.id (some ttlSeconds)
        "human_input_required")⟩ s = .ok true ↔
      worker.state = .active ∧ ∀ l ∈ s.sessions, l.taskId ≠ taskId := by
  by_cases hactive : worker.state = .active
  · let l : LiveSession :=
      { id := x.uuid 0, taskId, backend, workerId := some worker.id, state := .waiting
        expiresAt := min (x.now + seconds ttlSeconds) f.job.deadlineAt }
    have hidentity : WorkerApi.identity role false s = .ok (worker, s) :=
      henrolled.identity_ok (Or.inl hactive)
    -- The session cannot have expired: the deadline and the time to live lie ahead.
    have hahead : ¬ min (x.now + seconds ttlSeconds) f.job.deadlineAt ≤ x.now := by
      have hlives : x.now < x.now + seconds ttlSeconds := by
        simp only [validTtl, Bool.and_eq_true, decide_eq_true_eq] at httl
        unfold seconds
        linarith
      exact not_le.mpr (lt_min hlives hcurrent.2)
    have hrun : WorkerApi.startLiveSession x role taskId token backend worker.id (some ttlSeconds)
        "human_input_required" s = (do
        attempt .integrityViolation (Store.insertSession l)
        exec (parkTask x.now f "human_input_required")
        return some l : Tx (Option LiveSession)) s := by
      unfold WorkerApi.startLiveSession
      rw [bind_run_ok hidentity, if_neg (by simp [hbackend, httl]), read_bind_run,
        activeTask_of_fenced hfence howner, if_pos hcurrent]
      dsimp only
      rw [WorkerApi.sessionExpiry, Option.elim_some, if_neg hahead]
    rcases commit_started l (parkTask x.now f "human_input_required") (some l) hfresh with
      ⟨⟨s', hok⟩, hnone⟩ | ⟨herror, hsome⟩
    · exact iff_of_true (reply_of_ok (map_run_ok (hrun.trans hok))) ⟨hactive, hnone⟩
    · refine iff_of_false (fun hreply => ?_) fun h => hsome h.2
      rw [reply_of_error (map_run_error (hrun.trans herror))] at hreply
      cases hreply
  · refine iff_of_false (fun hreply => ?_) fun h => hactive h.1
    obtain ⟨message, hidentity⟩ := henrolled.identity_error hactive
    have hrun : WorkerApi.startLiveSession x role taskId token backend worker.id (some ttlSeconds)
        "human_input_required" s = .error (.insufficientPrivilege message) := by
      unfold WorkerApi.startLiveSession
      rw [bind_run_error hidentity]
    rw [reply_of_error (map_run_error hrun)] at hreply
    cases hreply

/-- The holder of a current lease can park it exactly when the task never had
a session, and the holder, if it is a remote worker, is not draining. -/
theorem starts_iff (url : UrlIdentity) (x : Txn) (s : Store) (caller : Caller)
    (taskId token : Uuid) (backend : String) (ttlSeconds : ℤ) (f : FencedTask)
    (hfence : s.fencedTask taskId token = some f) (hcurrent : Current x.now f)
    (hholds : caller.Holds f s) (hbackend : validBackend backend = true)
    (httl : validTtl ttlSeconds = true) (hfresh : ∀ l ∈ s.sessions, l.id ≠ x.uuid 0) :
    reply url ⟨x, caller.start taskId token backend ttlSeconds⟩ s = .ok true ↔
      caller.Admitted ∧ ∀ l ∈ s.sessions, l.taskId ≠ taskId := by
  cases caller with
  | core workerId =>
      obtain ⟨hnamed, howner⟩ := hholds
      have hcore := core_starts_iff url hfence hcurrent hnamed howner hbackend httl hfresh
      refine hcore.trans ?_
      show _ ↔ True ∧ _
      rw [true_and]
  | remote role worker =>
      obtain ⟨henrolled, howner⟩ := hholds
      exact remote_starts_iff hfence hcurrent henrolled howner hbackend httl hfresh

end Start

/-! ## Samples -/

/-- Parks the seed, leased under `token`, at `now`. -/
def park (now : Time) (token draw : Uuid) : Request :=
  ⟨{ now, uuid := fun n => draw + n }, .waitForInputLocal 2 token "owned" "local" 900⟩

/-- The seed is parked, resumed under token 41, reaped after its lease ran out
and claimed again under token 61. -/
def reclaimed : Store :=
  run Sample.identity {}
    [Sample.submit, Sample.claim, park (seconds 2) 11 21,
      ⟨{ now := seconds 3, uuid := fun n => 31 + n }, .requestResume 21⟩,
      ⟨{ now := seconds 4, uuid := fun n => 41 + n }, .resumeLiveSession 21 "local"⟩,
      ⟨{ now := seconds 130, uuid := fun n => 51 + n }, .reapExpiredLeases⟩,
      ⟨{ now := seconds 131, uuid := fun n => 61 + n }, .claimTask "local" ["http"]⟩]

/-- The seed, leased for the first time, can be parked. -/
theorem starts_once :
    reply Sample.identity (park (seconds 2) 11 21)
      (run Sample.identity {} [Sample.submit, Sample.claim]) = .ok true := by
  let s := run Sample.identity {} [Sample.submit, Sample.claim]
  have hlease : ∃ f, s.fencedTask 2 11 = some f ∧ Current (seconds 2) f ∧
      f.task.leaseOwner = some "local" := by
    refine ⟨_, rfl, ?_, ?_⟩
    · decide
    · decide
  obtain ⟨f, hfence, hcurrent, howner⟩ := hlease
  have hnone : ∀ l ∈ s.sessions, False := by decide
  refine (starts_iff Sample.identity (park (seconds 2) 11 21).txn s (.core "local") 2 11 "owned" 900
    f hfence hcurrent ⟨by decide, howner⟩ (by decide) (by decide)
    fun l hl => (hnone l hl).elim).mpr ⟨trivial, fun l hl => (hnone l hl).elim⟩

/-- The second lease is current, but cannot be parked: the row of the first
session is still there. -/
theorem starts_never_again :
    (∃ f, reclaimed.fencedTask 2 61 = some f ∧ Current (seconds 132) f ∧
        f.task.leaseOwner = some "local") ∧
      reply Sample.identity (park (seconds 132) 61 71) reclaimed =
        .error .integrityViolation := by
  refine ⟨⟨_, rfl, ?_, ?_⟩, ?_⟩
  · decide
  · decide
  · decide

end Sessions

end CrawlTrove
