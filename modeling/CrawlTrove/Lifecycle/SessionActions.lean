import CrawlTrove.Lifecycle.FailureActions

/-!
# Session transactions as actions

Parking a leased task, ending it with its session, and resuming it. The core
and the remote protocol share the statements that matter here; where their
order differs, the tables they leave do not.
-/

namespace CrawlTrove

open Relational Transaction

namespace Lifecycle

/-! ## Parking -/

theorem parkTask_settles {now : Time} {f : FencedTask} {code : String} {s : Store}
    (hf : Holds s f.task f.token) :
    Settles f.task .waitingInput 0 0 true s (parkTask now f code s) where
  task := ⟨hf.mem, hf.leased⟩
  ends := by simp
  downloaded_ok := fun h => ⟨le_refl 0, h⟩
  artifacts_ok := fun h => ⟨le_refl 0, h⟩
  counted_ok := by simp
  parked_ok := by simp
  jobs := by
    refine Table.Changed.of_update fun j _ _ => ?_
    simp [Job.To, Job.core, Job.unreserve, settleJob, TaskState.terminal, TaskState.failed]
    rfl
  tasks := by
    refine Table.Changed.of_update fun t _ _ => ?_
    rfl
  leases := hf.releases
  attempts := by
    refine Table.Changed.of_update fun a _ _ => ?_
    exact ⟨rfl, rfl, rfl, rfl, rfl, fun _ => rfl, fun _ => rfl⟩
  usage := rfl

theorem parkTask_trace {ok : Event → Prop} (hok : ok .ordinary) {now : Time} {f : FencedTask}
    {code : String} {s : Store} (hf : Active now s f) :
    Trace Action ok s (parkTask now f code s) :=
  (parkTask_settles hf.toHolds).requeue_trace hok hf (by simp)

/-- Inserting a session is not seen by the invariants. -/
theorem insertSession_frames {l : LiveSession} {s s' : Store} (h : s.insertSession l = some s') :
    Frames s s' := by
  obtain ⟨T, -, rfl⟩ := Option.map_eq_some_iff.mp h
  exact ⟨rfl, rfl, rfl, rfl, rfl⟩

theorem Active.frame {now : Time} {f : FencedTask} {s s' : Store} (hf : Active now s f)
    (hframe : Frames s s') : Active now s' f :=
  ⟨⟨⟨hframe.tasks ▸ hf.mem, hf.leased, hf.token⟩, hframe.jobs ▸ hf.job_mem, hf.job_id⟩,
    hf.uncancelled, hf.timely⟩

theorem waitForInputLocal_trace {ok : Event → Prop} (hok : ok .ordinary) {x : Txn}
    {taskId token : Uuid} {backend workerId : String} {ttl : ℤ} {s s' : Store} {r : LiveSession}
    (h : waitForInputLocal x taskId token backend workerId ttl s = .ok (r, s')) :
    Trace Action ok s s' := by
  unfold waitForInputLocal at h
  split at h
  · simp at h
  · simp only [bind_ok, read_ok] at h
    obtain ⟨found, _, ⟨hfound, rfl⟩, h⟩ := h
    cases found with
    | none => simp at h
    | some f =>
        obtain ⟨hf, -⟩ := Fenced.of_fencedTask hfound
        simp only at h
        split at h
        · simp at h
        · rename_i hactive
          simp only [bind_ok, attempt_ok, exec_ok, pure_ok] at h
          obtain ⟨_, s₁, h₁, _, _, rfl, -, rfl⟩ := h
          have hframe := insertSession_frames h₁
          have hactive' : f.job.cancelRequestedAt = none ∧ x.now < f.job.deadlineAt := by
            simp only [not_or, Option.isSome_iff_ne_none, not_not, not_le] at hactive
            exact hactive.2
          have hf' : Active x.now s₁ f :=
            Active.frame ⟨hf, hactive'.1, hactive'.2⟩ hframe
          exact (hframe.trace hok).trans (parkTask_trace hok hf')

/-! ## Ending a task with its session -/

/-- A failure is counted for the one reason that names it. -/
theorem closeReason_counts (reason : CloseReason) :
    (if reason.expires = true then (1 : ℤ) else 0) =
      if reason.task.failed ∧ reason.known = true then 1 else 0 := by
  cases hexpires : reason.expires with
  | true =>
      simp [CloseReason.task, CloseReason.known, TaskState.failed, hexpires,
        CloseReason.cancels_of_expires hexpires]
  | false =>
      cases hcancels : reason.cancels <;>
        simp [CloseReason.task, CloseReason.known, TaskState.failed, hexpires, hcancels]

/-- Closing an attempt without touching its costs. -/
theorem closesFree (task : Task) (now : Time) (outcome code : String) (T : Table Attempt) :
    T.Changed (currentAttempt task) (ClosedWith 0 0)
      (T.update (fun a => a.taskId = task.id && a.attemptNumber = task.attemptCount)
        fun a => { a with
          finishedAt := some (a.finishedAt.getD now)
          outcome := some outcome
          errorCode := some code }) := by
  refine Table.Changed.of_update fun a _ _ => ?_
  exact ⟨rfl, rfl, rfl, rfl, rfl, id, id⟩

theorem endSessionTask_expires {now : Time} {task : Task} {reason : CloseReason} {s : Store}
    (hmem : task ∈ s.tasks) (hparked : task.state = .waitingInput) :
    Expires task reason.task reason.known s (endSessionTask now task reason s) where
  task := ⟨hmem, hparked⟩
  ends := reason.task_cases
  jobs := by
    refine Table.Changed.of_update fun j _ _ => ?_
    have hfailed := closeReason_counts reason
    simp [Job.To, Job.core, drainJob, hfailed]
    rfl
  tasks := by
    refine Table.Changed.of_update fun t _ _ => ?_
    exact Or.inl rfl
  leases := rfl
  attempts := closesFree ..
  usage := rfl

theorem endSessionTask_settles {now : Time} {task : Task} {reason : CloseReason} {s : Store}
    (hmem : task ∈ s.tasks) (hleased : task.state = .leased) :
    Settles task reason.task 0 0 reason.known s
      (endSessionTask now task reason (freeLease task s)) where
  task := ⟨hmem, hleased⟩
  ends := by rcases reason.task_cases with h | h <;> simp [h]
  downloaded_ok := fun h => ⟨le_refl 0, h⟩
  artifacts_ok := fun h => ⟨le_refl 0, h⟩
  counted_ok := fun hunknown => Or.inr <| by
    rw [CloseReason.known, Bool.or_eq_false_iff] at hunknown
    exact if_neg (by simp [hunknown.1])
  parked_ok := by simp
  jobs := by
    show Table.Changed _ _ s.jobs ((s.jobs.update _ _ (Job.key_unreserve task)).update _ _)
    rw [Table.update_update]
    · refine Table.Changed.of_update fun j _ _ => ?_
      have hfailed := closeReason_counts reason
      rcases reason.task_cases with h | h <;>
        simp [Job.To, Job.core, Job.unreserve, settleJob, hfailed, h, TaskState.terminal,
          TaskState.failed] <;> rfl
    · intro j
      rfl
  tasks := by
    refine Table.Changed.of_update fun t _ _ => ?_
    rfl
  leases := ⟨_, rfl, fun l _ hl => by simpa using hl, fun l _ hid _ => by simpa using hid⟩
  attempts := closesFree ..
  usage := rfl

/-- The remote statements leave the same tables, in another order. -/
theorem remote_closeTask_eq (now : Time) (task : Task) (reason : CloseReason) (owned : Bool)
    (s : Store) :
    WorkerApi.closeTask now task reason owned s = closeTask now task reason owned s := rfl

/-- The label of the end of a session's task. -/
def closeEvent (task : Task) (reason : CloseReason) : Event :=
  if reason.known then .ordinary else .uncounted task

/-- The task of a session that a close ends. -/
def Endable (task : Task) (owned : Bool) : Prop :=
  task.state = .waitingInput ∨ task.state = .leased ∧ owned = true

theorem closeEvent_eq {task : Task} {reason : CloseReason} (h : reason.known = false) :
    closeEvent task reason = .uncounted task := by
  simp [closeEvent, h]

theorem closeTask_trace {ok : Event → Prop} {now : Time} {task : Task} {reason : CloseReason}
    {owned : Bool} {s : Store} (hok : Endable task owned → ok (closeEvent task reason))
    (hmem : task ∈ s.tasks) : Trace Action ok s (closeTask now task reason owned s) := by
  unfold closeTask
  split
  · rename_i hparked
    exact Trace.single (hok (Or.inl hparked))
      (.expire _ _ _ _ closeEvent_eq (endSessionTask_expires hmem hparked))
  · split
    · rename_i hleased
      refine Trace.single (hok (Or.inr hleased)) (.settle _ _ _ _ _ _ (fun h => ?_)
        (fun _ => closeEvent_eq) (fun h => ?_) (endSessionTask_settles hmem hleased.1))
      · rcases reason.task_cases with hends | hends <;> simp [hends] at h
      · rcases reason.task_cases with hends | hends <;>
          simp [hends, TaskState.terminal] at h
    · exact Trace.refl

theorem setSession_trace {ok : Event → Prop} (hok : ok .ordinary) (id : Uuid)
    (state : SessionState) (s : Store) : Trace Action ok s (setSession id state s) :=
  Frames.trace hok ⟨rfl, rfl, rfl, rfl, rfl⟩

theorem closeSession_trace {ok : Event → Prop} (hok : ok .ordinary) {x : Txn} {id : Uuid}
    {reason : CloseReason} {workerId : Option String} {s s' : Store} {b : Bool}
    (h : closeSession x id reason workerId s = .ok (b, s')) : Trace Action ok s s' := by
  unfold closeSession at h
  split at h
  · simp at h
  rename_i hknown
  have hordinary : ∀ task, closeEvent task reason = .ordinary := by
    intro task
    rw [Bool.not_eq_true', Bool.not_eq_false] at hknown
    simp [closeEvent, hknown]
  simp only [bind_ok, read_ok] at h
  obtain ⟨found, _, ⟨-, rfl⟩, h⟩ := h
  cases found with
  | none =>
      obtain ⟨-, rfl⟩ := pure_ok.mp h
      exact Trace.refl
  | some session =>
      simp only [bind_ok, read_ok] at h
      obtain ⟨task, _, ⟨htask, rfl⟩, h⟩ := h
      cases task with
      | none =>
          simp only [bind_ok, exec_ok, pure_ok] at h
          obtain ⟨_, _, rfl, -, rfl⟩ := h
          exact setSession_trace hok ..
      | some task =>
          simp only at h
          split at h
          · simp only [bind_ok, exec_ok, pure_ok] at h
            obtain ⟨_, _, rfl, -, rfl⟩ := h
            exact setSession_trace hok ..
          · simp only [bind_ok, exec_ok, pure_ok] at h
            obtain ⟨_, _, rfl, _, _, rfl, -, rfl⟩ := h
            obtain ⟨hmem, -⟩ := Store.task?_eq_some.mp htask
            refine (closeTask_trace (fun _ => ?_) hmem).trans (setSession_trace hok ..)
            rw [hordinary]
            exact hok

theorem expireSession_expires {x : Txn} {session : LiveSession} {task : Task} {s : Store}
    (htask : s.task? session.taskId = some task) (hparked : task.state = .waitingInput) :
    Expires task .permanentFailed true s (expireSession x session s) := by
  obtain ⟨hmem, -⟩ := Store.task?_eq_some.mp htask
  have hrow : ∀ r ∈ s.tasks, (decide (r.id = task.id) && decide (r.state = .waitingInput)) =
      decide (r.id = task.id) := by
    intro r hr
    by_cases hid : r.id = task.id
    · obtain rfl := task_eq_of_id hr hmem hid
      simp [hparked]
    · simp [hid]
  unfold expireSession
  rw [htask]
  simp only [hparked, ne_eq, not_true_eq_false, if_false]
  refine
    { task := ⟨hmem, hparked⟩
      ends := Or.inl rfl
      jobs := ?_
      tasks := ?_
      leases := rfl
      attempts := closesFree ..
      usage := rfl }
  · refine Table.Changed.of_update fun j _ _ => ?_
    rfl
  · refine Table.Changed.congr hrow ?_
    refine Table.Changed.of_update fun t _ _ => ?_
    exact Or.inr rfl

theorem expireSession_trace {ok : Event → Prop} (hok : ok .ordinary) (x : Txn)
    (session : LiveSession) (s : Store) : Trace Action ok s (expireSession x session s) := by
  cases htask : s.task? session.taskId with
  | none =>
      simp only [expireSession, htask]
      exact Trace.refl
  | some task =>
      obtain ⟨hmem, -⟩ := Store.task?_eq_some.mp htask
      by_cases hparked : task.state = .waitingInput
      · exact Trace.single hok
          (.expire _ task _ true (by simp) (expireSession_expires htask hparked))
      · simp only [expireSession, htask, ne_eq, hparked, not_false_eq_true, if_true]
        exact Trace.refl

theorem expireSessions_trace {ok : Event → Prop} (hok : ok .ordinary) (x : Txn)
    (sessions : List LiveSession) (s : Store) :
    Trace Action ok s (sessions.foldl (fun s l => expireSession x l s) s) := by
  induction sessions generalizing s with
  | nil => exact Trace.refl
  | cons l sessions ih => exact (expireSession_trace hok x l s).trans (ih _)

theorem expireDue_trace {ok : Event → Prop} (hok : ok .ordinary) (x : Txn) (s : Store) :
    Trace Action ok s (expireDue x s) := by
  have hframe : Trace Action ok s (s.updateSessions
      (fun l => l.state.live && decide (l.expiresAt ≤ x.now)) fun l =>
        { l with state := .expired }) := Frames.trace hok ⟨rfl, rfl, rfl, rfl, rfl⟩
  exact hframe.trans (expireSessions_trace hok x _ _)

/-! ## Resuming -/

theorem grantResumed_leases {x : Txn} {workerId : String} {task : Task} {job : Job}
    {bytes artifacts : ℤ} {s s' : Store} {r : ClaimedTask}
    (hgrant : Grantable s task job bytes artifacts) (hparked : task.state = .waitingInput)
    (h : grantResumed x workerId task job bytes artifacts s = .ok (r, s')) :
    Leases job task (x.uuid 0) bytes artifacts true s s' := by
  simp only [grantResumed, bind_ok, exec_ok, attempt_ok, pure_ok] at h
  obtain ⟨_, _, rfl, _, _, rfl, _, s₁, h₁, -, rfl⟩ := h
  obtain ⟨L, hL, rfl⟩ := Option.map_eq_some_iff.mp h₁
  refine
    { job := hgrant.job_ok, task := hgrant.task_mem, state := hparked
      bytes_ok := hgrant.bytes_ok, artifacts_ok := hgrant.artifacts_ok
      free := originLeased_eq_false.mp hgrant.free
      jobs := ?_
      tasks := ?_
      leases := ⟨_, rfl, rfl, rfl, hL⟩
      attempts := rfl
      usage := rfl }
  · refine Table.Changed.of_update fun j _ _ => ?_
    rfl
  · refine Table.Changed.of_update fun t _ _ => ?_
    simp [Task.To, Task.core, Task.lease, granted]

theorem resumeLiveSession_trace {ok : Event → Prop} (hok : ok .ordinary) {x : Txn} {id : Uuid}
    {workerId : String} {s s' : Store} {r : Option ClaimedTask}
    (h : resumeLiveSession x id workerId s = .ok (r, s')) : Trace Action ok s s' := by
  simp only [resumeLiveSession, bind_ok, read_ok] at h
  obtain ⟨found, _, ⟨-, rfl⟩, h⟩ := h
  cases found with
  | none =>
      obtain ⟨-, rfl⟩ := pure_ok.mp h
      exact Trace.refl
  | some session =>
      simp only [bind_ok, read_ok] at h
      obtain ⟨task, _, ⟨htask, rfl⟩, h⟩ := h
      cases task with
      | none =>
          obtain ⟨-, rfl⟩ := pure_ok.mp h
          exact Trace.refl
      | some task =>
          simp only [bind_ok, read_ok] at h
          obtain ⟨job, _, ⟨hjob, rfl⟩, h⟩ := h
          cases job with
          | none =>
              obtain ⟨-, rfl⟩ := pure_ok.mp h
              exact Trace.refl
          | some job =>
              simp only at h
              split at h
              · obtain ⟨-, rfl⟩ := pure_ok.mp h
                exact Trace.refl
              · rename_i hactive
                simp only [bind_ok, read_ok] at h
                obtain ⟨leased, _, ⟨hleased, rfl⟩, h⟩ := h
                split at h
                · obtain ⟨-, rfl⟩ := pure_ok.mp h
                  exact Trace.refl
                · rename_i hfree
                  split at h
                  · obtain ⟨-, rfl⟩ := pure_ok.mp h
                    exact Trace.refl
                  · rename_i hroom
                    obtain ⟨granted, h₁, -⟩ := map_ok.mp h
                    obtain ⟨hbytes, hartifacts⟩ := allowances_ok hroom
                    obtain ⟨hmem, -⟩ := Store.task?_eq_some.mp htask
                    obtain ⟨hj, hid⟩ := Store.job?_eq_some.mp hjob
                    simp only [not_or, ne_eq, not_not, Option.isSome_iff_ne_none] at hactive
                    exact Trace.single hok (.lease _ _ _ _ _ _ (grantResumed_leases
                      ⟨⟨hj, hid, hactive.2.1⟩, hmem, hbytes, hartifacts,
                        by rw [hleased]; simpa using hfree⟩ hactive.1 h₁))

example : (run Sample.identity {} [Sample.submit, Sample.claim,
    ⟨{ now := seconds 2, uuid := fun n => 21 + n },
      .waitForInputLocal 2 11 "owned" "local" 300⟩]).tasks.rows.map Task.state =
    [.waitingInput] := by
  decide +kernel

end Lifecycle

end CrawlTrove
