import CrawlTrove.Lifecycle.CompletionActions

/-!
# Failing transactions of the core as actions

Retries, failures, robots blocks, reaped leases and provider attempts of the
core, each as the actions it commits.
-/

namespace CrawlTrove

open Relational Transaction

namespace Lifecycle

/-! ## Back to the queue -/

/-- A lease goes back to the queue, charged with what it used. -/
def requeueLease (now : Time) (f : FencedTask) (availableAt : Time)
    (errorClass errorCode outcome : String) (metadata : Metadata) (d : ℤ) (s : Store) : Store :=
  finishAttempt now f.task outcome metadata d 0 <| chargeDownload f.task d <|
    releaseLease f <| requeueTask f availableAt errorClass errorCode s

theorem requeueLease_settles (now : Time) {f : FencedTask} (availableAt : Time)
    (errorClass errorCode outcome : String) (metadata : Metadata) {d : ℤ} {s : Store}
    (hf : Holds s f.task f.token)
    (hd : 0 ≤ f.task.byteBudgetReserved → 0 ≤ d ∧ d ≤ f.task.byteBudgetReserved) :
    Settles f.task .retryWait d 0 true s
      (requeueLease now f availableAt errorClass errorCode outcome metadata d s) where
  task := ⟨hf.mem, hf.leased⟩
  ends := by simp
  downloaded_ok := hd
  artifacts_ok := fun h => ⟨le_refl 0, h⟩
  counted_ok := by simp
  parked_ok := by simp
  jobs := by
    simp only [requeueLease, finishAttempt, chargeDownload_eq, releaseLease, requeueTask,
      Store.updateJobs, Store.updateTasks, Store.updateAttempts, Store.deleteOriginLeases]
    rw [Table.update_update]
    · refine Table.Changed.of_update fun j _ _ => ?_
      simp [Job.To, Job.core, settleJob, TaskState.terminal, TaskState.failed]
    · intro j; rfl
  tasks := by
    simp only [requeueLease, finishAttempt, chargeDownload_eq]
    refine hf.changed ?_
    refine Table.Changed.of_update fun t _ _ => ?_
    rfl
  leases := by
    simp only [requeueLease, finishAttempt, chargeDownload_eq]
    exact hf.releases
  attempts := by
    simp only [requeueLease, finishAttempt, chargeDownload_eq]
    refine Table.Changed.of_update fun a _ _ => ?_
    exact ⟨rfl, rfl, rfl, rfl, rfl, fun _ => rfl, fun _ => rfl⟩
  usage := by
    simp only [requeueLease, finishAttempt, chargeDownload_eq]
    rfl

/-- No row of an uncancelled lease's job carries the flag. -/
theorem Active.unflagged {now : Time} {s : Store} {f : FencedTask} (h : Active now s f) :
    ∀ j ∈ s.jobs, j.id = f.task.jobId → j.cancelRequestedAt = none := fun j hj hid => by
  rw [h.job_unique j hj hid]
  exact h.uncancelled

/-- A lease of an active job may go back to the queue. -/
theorem Settles.requeue_trace {ok : Event → Prop} (hok : ok .ordinary) {now : Time}
    {f : FencedTask} {σ : TaskState} {d a : ℤ} {s s' : Store} (hf : Active now s f)
    (hσ : σ ≠ .blockedRobots) (h : Settles f.task σ d a true s s') :
    Trace Action ok s s' :=
  Trace.single hok (.settle _ _ _ _ _ _ (fun hb => absurd hb hσ) (by simp)
    (fun _ => Or.inl hf.unflagged) h)

theorem requeue_trace {ok : Event → Prop} (hok : ok .ordinary) {x : Txn} {f : FencedTask}
    {decision : FailureDecision} {availableAt : Time} {metadata : Metadata} {s : Store}
    (hf : Active x.now s f) :
    Trace Action ok s (requeue x f decision availableAt metadata s) := by
  have hsettle := requeueLease_settles x.now availableAt decision.errorClass decision.errorCode
    "retry" metadata hf.toHolds (actualBytes_ok f.task metadata)
  have hframe : Frames (requeueLease x.now f availableAt decision.errorClass decision.errorCode
      "retry" metadata (actualBytes f.task metadata) s)
      (requeue x f decision availableAt metadata s) := by
    simp only [requeue, requeueLease, chargeDownload_eq]
    exact ⟨rfl, rfl, rfl, rfl, rfl⟩
  exact (hsettle.frame hframe).requeue_trace hok hf (by simp)

theorem requeueReaped_trace {ok : Event → Prop} (hok : ok .ordinary) {x : Txn} {f : FencedTask}
    {s : Store} (hf : Active x.now s f) : Trace Action ok s (requeueReaped x f s) := by
  have hsettle := requeueLease_settles x.now x.now "transport" "lease_expired" "retry"
    { errorCode := some "lease_expired" } hf.toHolds fun h => ⟨le_refl 0, h⟩
  have heq : requeueLease x.now f x.now "transport" "lease_expired" "retry"
      { errorCode := some "lease_expired" } 0 s = requeueReaped x f s := by
    simp [requeueLease, requeueReaped, chargeDownload]
  rw [heq] at hsettle
  exact hsettle.requeue_trace hok hf (by simp)

/-! ## Failing -/

theorem failPermanently_trace {ok : Event → Prop} (hok : ok .ordinary) {x : Txn} {f : FencedTask}
    {decision : FailureDecision} {metadata : Metadata} {s : Store} (hf : Fenced s f) :
    Trace Action ok s (failPermanently x f decision metadata s) := by
  have hexit : ok (exitEvent f .permanentFailed) := hok
  simp only [failPermanently, charge_terminalize]
  exact exit_trace hok hexit hf (Or.inr (Or.inl rfl)) (actualBytes_ok f.task metadata)

theorem retryTask_trace {ok : Event → Prop} (hok : ok .ordinary) {x : Txn} {taskId token : Uuid}
    {decision : FailureDecision} {availableAt : Time} {metadata : Metadata} {s s' : Store}
    {b : Bool} (h : retryTask x taskId token decision availableAt metadata s = .ok (b, s')) :
    Trace Action ok s s' := by
  simp only [retryTask, bind_ok] at h
  obtain ⟨r, s₁, h₁, h⟩ := h
  rcases activeLease_ok hok h₁ with ⟨rfl, htrace⟩ | ⟨f, rfl, rfl, hf, -⟩
  · obtain ⟨-, rfl⟩ := pure_ok.mp h
    exact htrace
  · simp only at h
    split at h
    · simp only [bind_ok, exec_ok, pure_ok] at h
      obtain ⟨_, _, rfl, -, rfl⟩ := h
      exact failPermanently_trace hok hf.toFenced
    · simp only [bind_ok, exec_ok, pure_ok] at h
      obtain ⟨_, _, rfl, -, rfl⟩ := h
      exact requeue_trace hok hf

theorem failTask_trace {ok : Event → Prop} (hok : ok .ordinary) {x : Txn} {taskId token : Uuid}
    {decision : FailureDecision} {metadata : Metadata} {s s' : Store} {b : Bool}
    (h : failTask x taskId token decision metadata s = .ok (b, s')) : Trace Action ok s s' := by
  simp only [failTask, bind_ok] at h
  obtain ⟨r, s₁, h₁, h⟩ := h
  rcases activeLease_ok hok h₁ with ⟨rfl, htrace⟩ | ⟨f, rfl, rfl, hf, -⟩
  · obtain ⟨-, rfl⟩ := pure_ok.mp h
    exact htrace
  · simp only [bind_ok, exec_ok, pure_ok] at h
    obtain ⟨_, _, rfl, -, rfl⟩ := h
    exact failPermanently_trace hok hf.toFenced

/-- A robots block by the core is the one settlement its job does not count. -/
theorem blockRobots_trace {ok : Event → Prop} (hok : ok .ordinary) {x : Txn}
    {taskId token : Uuid} {code : String} {s s' : Store} {b : Bool}
    (hblocked : ∀ f, Active x.now s f → f.task.id = taskId → f.token = token →
      ok (.blocked f.task false))
    (h : blockRobots x taskId token code s = .ok (b, s')) : Trace Action ok s s' := by
  simp only [blockRobots, bind_ok] at h
  obtain ⟨r, s₁, h₁, h⟩ := h
  rcases activeLease_ok hok h₁ with ⟨rfl, htrace⟩ | ⟨f, rfl, rfl, hf, hid, htoken⟩
  · obtain ⟨-, rfl⟩ := pure_ok.mp h
    exact htrace
  · simp only [bind_ok, exec_ok, pure_ok] at h
    obtain ⟨_, _, rfl, -, rfl⟩ := h
    have hexit : ok (exitEvent f .blockedRobots) := hblocked f hf hid htoken
    exact terminalize_trace hok hexit hf.toFenced (Or.inr (Or.inr rfl))

/-! ## Reaping -/

theorem reapLease_trace {ok : Event → Prop} (hok : ok .ordinary) {x : Txn}
    {lease : Uuid × Option Uuid} {s s' : Store} {b : Bool}
    (h : reapLease x lease s = .ok (b, s')) : Trace Action ok s s' := by
  simp only [reapLease, bind_ok, read_ok] at h
  obtain ⟨found, _, ⟨hfound, rfl⟩, h⟩ := h
  cases found with
  | none =>
      obtain ⟨-, rfl⟩ := pure_ok.mp h
      exact Trace.refl
  | some f =>
      obtain ⟨token, htoken, hfence⟩ := Option.bind_eq_some_iff.mp hfound
      obtain ⟨hf, -⟩ := Fenced.of_fencedTask hfence
      simp only [bind_ok] at h
      obtain ⟨rejected, s₁, h₁, h⟩ := h
      rcases rejectInactiveLease_ok hok hf h₁ with ⟨rfl, htrace⟩ | ⟨rfl, rfl, hcancel, htime⟩
      · rw [if_pos rfl] at h
        obtain ⟨-, rfl⟩ := pure_ok.mp h
        exact htrace
      · rw [if_neg Bool.false_ne_true] at h
        have hexit : ok (exitEvent f .permanentFailed) := hok
        split at h
        · simp only [bind_ok, exec_ok, pure_ok] at h
          obtain ⟨_, _, rfl, -, rfl⟩ := h
          exact terminalize_trace hok hexit hf (Or.inr (Or.inl rfl))
        · simp only [bind_ok, exec_ok, pure_ok] at h
          obtain ⟨_, _, rfl, -, rfl⟩ := h
          exact requeueReaped_trace hok ⟨hf, hcancel, htime⟩

theorem reapLeases_trace {ok : Event → Prop} (hok : ok .ordinary) {x : Txn}
    {leases : List (Uuid × Option Uuid)} {reaped n : ℕ} {s s' : Store}
    (h : reapLeases x leases reaped s = .ok (n, s')) : Trace Action ok s s' := by
  induction leases generalizing reaped s with
  | nil =>
      obtain ⟨-, rfl⟩ := pure_ok.mp h
      exact Trace.refl
  | cons lease leases ih =>
      simp only [reapLeases, bind_ok] at h
      obtain ⟨b, s₁, h₁, h₂⟩ := h
      exact (reapLease_trace hok h₁).trans (ih h₂)

theorem reapExpiredLeases_trace {ok : Event → Prop} (hok : ok .ordinary) {x : Txn} {n : ℕ}
    {s s' : Store} (h : reapExpiredLeases x s = .ok (n, s')) : Trace Action ok s s' := by
  simp only [reapExpiredLeases, bind_ok, read_ok] at h
  obtain ⟨_, s₁, h₁, expired, _, ⟨-, rfl⟩, h₂⟩ := h
  exact (reconcileAbandoned_trace hok h₁).trans (reapLeases_trace hok h₂)

/-! ## Provider attempts -/

theorem reserveAcquisitionAttempt_trace {ok : Event → Prop} (hok : ok .ordinary) {x : Txn}
    {taskId token : Uuid} {route : Route} {reservedCost : PyValues} {s s' : Store}
    {r : Option ReservedAcquisitionAttempt}
    (h : reserveAcquisitionAttempt x taskId token route reservedCost s = .ok (r, s')) :
    Trace Action ok s s' := by
  unfold reserveAcquisitionAttempt at h
  cases hcost : nativeCost route reservedCost.toNativeValues with
  | error message => simp [hcost] at h
  | ok cost =>
      simp only [hcost, bind_ok] at h
      obtain ⟨lease, s₁, h₁, h⟩ := h
      rcases activeLease_ok hok h₁ with ⟨rfl, htrace⟩ | ⟨f, rfl, rfl, hf, hid, htoken⟩
      · obtain ⟨-, rfl⟩ := pure_ok.mp h
        exact htrace
      · simp only [bind_ok, read_ok] at h
        obtain ⟨allowed, _, ⟨hallowed, rfl⟩, h⟩ := h
        split at h
        · obtain ⟨-, rfl⟩ := pure_ok.mp h
          exact Trace.refl
        · rename_i hcaps
          simp only [bind_ok, read_ok] at h
          obtain ⟨covered, _, ⟨-, rfl⟩, h⟩ := h
          split at h
          · obtain ⟨-, rfl⟩ := pure_ok.mp h
            exact Trace.refl
          · simp only [bind_ok, read_ok, pure_ok] at h
            obtain ⟨earlier, _, ⟨-, rfl⟩, _, s₂, h₂, _, s₃, h₃, -, rfl⟩ := h
            rw [← htoken] at h₃
            have hroom : s₁.attemptAllowed f.job.config f.task.id route = true := by
              rw [hid, hallowed]
              simpa using hcaps
            obtain ⟨a, ha, hreserved⟩ := reserve_ok hf.toFenced hroom (nativeCost_ok hcost) h₂ h₃
            have hsurvives := survives_of_values hcost hreserved reservedCost.survives
            exact Trace.single hok (.reserve _ _ _ _ _ (fun hunread => absurd hsurvives hunread) ha)

theorem finishAcquisitionAttempt_trace {ok : Event → Prop} (hok : ok .ordinary) {x : Txn}
    {attemptId token : Uuid} {outcome : String} {actualCost : PyValues} {estimated : Bool}
    {s s' : Store} {b : Bool}
    (h : finishAcquisitionAttempt x attemptId token outcome actualCost estimated s =
      .ok (b, s')) : Trace Action ok s s' := by
  simp only [finishAcquisitionAttempt, bind_ok, read_ok] at h
  obtain ⟨found, _, ⟨hfound, rfl⟩, h⟩ := h
  cases found with
  | none =>
      obtain ⟨-, rfl⟩ := pure_ok.mp h
      exact Trace.refl
  | some a =>
      obtain ⟨hmem, -⟩ := Table.find?_eq_some hfound
      simp only at h
      split at h
      · obtain ⟨-, rfl⟩ := pure_ok.mp h
        exact Trace.refl
      · rename_i htoken
        simp only [bind_ok] at h
        obtain ⟨lease, s₁, h₁, h⟩ := h
        rcases activeLease_ok hok h₁ with ⟨rfl, htrace⟩ | ⟨f, rfl, rfl, hf, hid, -⟩
        · obtain ⟨-, rfl⟩ := pure_ok.mp h
          exact htrace
        · simp only at h
          split at h
          · obtain ⟨-, rfl⟩ := pure_ok.mp h
            exact Trace.refl
          · rename_i hopen
            cases hroute : a.route with
            | none => simp [hroute] at h
            | some route =>
                simp only [hroute] at h
                cases hcost : nativeCost route actualCost.toNativeValues with
                | error message => simp [hcost] at h
                | ok actual =>
                    simp only [hcost] at h
                    cases hreads : nativeCost route
                        (a.reservedCost.loads route).toNativeValues with
                    | error message => simp [hreads] at h
                    | ok reserved =>
                        simp only [hreads] at h
                        split at h
                        · simp at h
                        · split at h
                          · simp at h
                          · simp only [bind_ok, pure_ok] at h
                            obtain ⟨_, s₂, h₂, -, rfl⟩ := h
                            have hout : Outstanding s₁ a :=
                              ⟨hmem, by simp only [ne_eq, not_not] at htoken; simp [htoken],
                                by simpa using hopen⟩
                            exact Trace.single hok (.consume a reserved actual
                              (settleAttempt_ok hout ⟨hf.mem, hid⟩ hroute (loads_amount hreads)
                                (nativeCost_ok hcost).2 h₂))

end Lifecycle

end CrawlTrove
