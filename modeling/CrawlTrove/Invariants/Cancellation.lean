import CrawlTrove.Invariants.Quiescence

/-!
# Cancellation

After `request_cancel` the leases a job has left are the leases it had, and
nothing else of it is ever active again. When the last of them is gone the
next pass of the finalizer leaves the job cancelled.
-/

namespace CrawlTrove

open Relational Transaction

namespace Lifecycle

/-! ## Since the cancellation -/

/-- The job has stopped, and what is leased was leased under the same token in
`s₁`. -/
structure Halted (jobId : Uuid) (s₁ s : Store) : Prop where
  quiet : Quiet jobId s
  stopped : ∃ j ∈ s.jobs, j.id = jobId ∧ Stopped j
  leased : ∀ t' ∈ s.tasks, t'.jobId = jobId → t'.state = .leased →
    ∃ t ∈ s₁.tasks, t.id = t'.id ∧ t.state = .leased ∧ t.leaseToken = t'.leaseToken

theorem JobMove.stopped {s s' : Store} {j j' : Job} (h : JobMove s s' j j') (hj : Stopped j) :
    Stopped j' := by
  rcases hj with hflag | hend
  · exact Or.inl (h.flagged hflag)
  · exact Or.inr (h.terminal hend)

theorem Halted.preserved {jobId : Uuid} {s₁ s : Store} {e : Event} {s' : Store}
    (he : Calm jobId e) (ha : Action s e s') (h : Halted jobId s₁ s) : Halted jobId s₁ s' := by
  obtain ⟨j, hj, hid, hstop⟩ := h.stopped
  refine ⟨h.quiet.preserved he ha, ?_, fun t' ht' hjob hleased => ?_⟩
  · obtain ⟨j', hj', hterms, hmove⟩ := ha.job_new hj
    exact ⟨j', hj', (terms_id hterms).trans hid, hmove.stopped hstop⟩
  · obtain ⟨t, ht, htid, htjob, htleased, htoken⟩ :=
      (h.quiet.task he ha hj hid hstop ht' hjob).2 hleased
    obtain ⟨u, hu, huid, huleased, hutoken⟩ := h.leased t ht htjob htleased
    exact ⟨u, hu, huid.trans htid, huleased, hutoken.trans htoken⟩

theorem Halted.step {url : UrlIdentity} {jobId : Uuid} {r : Request} {s₁ s : Store}
    (hr : Request.LeavesStopped url jobId r s) (h : Halted jobId s₁ s) :
    Halted jobId s₁ (CrawlTrove.step url r s) := by
  rcases step_quiet hr h.quiet with htrace | ⟨-, hnew, htasks⟩
  · exact htrace.preserves (fun s e s' he ha hs => hs.preserved he ha) h
  · refine ⟨h.quiet.step hr, ?_, ?_⟩
    · obtain ⟨j, hj, hid, hstop⟩ := h.stopped
      obtain ⟨j', hj', hjid, hstate, hcancel⟩ := hnew j hj
      refine ⟨j', hj', hjid.trans hid, ?_⟩
      unfold Stopped at hstop ⊢
      rwa [hstate, hcancel]
    · rw [htasks h.stopped]
      exact h.leased

/-- A halted job has no leases but those it had, and no queue. -/
theorem Halted.inactive {jobId : Uuid} {s₁ s : Store} (h : Halted jobId s₁ s) :
    ∀ t ∈ s.tasks, t.jobId = jobId → t.state.queued = false := by
  obtain ⟨j, hj, hid, hstop⟩ := h.stopped
  exact h.quiet.stopped j hj hid hstop

/-- Without its leases every task of a halted job has ended. -/
theorem Halted.terminal {jobId : Uuid} {s₁ s : Store} (h : Halted jobId s₁ s)
    (hidle : ∀ t ∈ s.tasks, t.jobId = jobId → t.state ≠ .leased) :
    ∀ t ∈ s.tasks, t.jobId = jobId → t.state.terminal = true := by
  intro t ht hjob
  have hqueued := h.inactive t ht hjob
  have hleased := hidle t ht hjob
  cases hstate : t.state <;> simp_all [TaskState.queued, TaskState.terminal]

/-! ## What `request_cancel` leaves behind -/

theorem Flagged.preserved {s : Store} {e : Event} {s' : Store} {jobId : Uuid}
    (ha : Action s e s') (h : Flagged s jobId) : Flagged s' jobId := by
  obtain ⟨j, hj, hid, hflag⟩ := h
  obtain ⟨j', hj', hterms, hmove⟩ := ha.job_new hj
  exact ⟨j', hj', (terms_id hterms).trans hid, hmove.flagged hflag⟩

theorem cancelJob_flagged {now : Time} {jobId : Uuid} {n : ℤ} {s : Store}
    (h : ∃ j ∈ s.jobs, j.id = jobId) : Flagged (cancelJob now jobId n s) jobId := by
  obtain ⟨j, hj, hid⟩ := h
  simp only [Flagged, cancelJob, Store.updateJobs, Table.mem_update]
  exact ⟨_, ⟨j, hj, rfl⟩, by simp [hid], by simp [hid]⟩

/-- A job that was active is flagged; one that had ended stays as it was. -/
theorem requestCancel_stops {x : Txn} {jobId : Uuid} {s s' : Store}
    (h : requestCancel x jobId s = .ok (true, s')) :
    (∃ j ∈ s'.jobs, j.id = jobId ∧ Stopped j) ∧
      ((∃ j ∈ s.jobs, j.id = jobId ∧ j.state.terminal = false) → Flagged s' jobId) := by
  simp only [requestCancel, bind_ok, read_ok] at h
  obtain ⟨found, s₁, ⟨hfound, rfl⟩, h⟩ := h
  cases found with
  | none => simp [pure_ok] at h
  | some job =>
      obtain ⟨hjob, hid⟩ := Store.job?_eq_some.mp hfound
      simp only at h
      split at h
      · rename_i hend
        obtain ⟨-, rfl⟩ := pure_ok.mp h
        refine ⟨⟨job, hjob, hid, Or.inr hend⟩, ?_⟩
        rintro ⟨k, hk, hkid, hactive⟩
        rw [job_eq_of_id hk hjob (hkid.trans hid.symm), hend] at hactive
        cases hactive
      · simp only [bind_ok, read_ok, exec_ok, pure_ok] at h
        obtain ⟨cancelled, _, ⟨-, rfl⟩, _, _, rfl, _, _, rfl, _, _, rfl, _, s₂, h₂, -, rfl⟩ := h
        have htrace : Trace Action (fun _ => True) _ s₂ := reconcileAbandoned_trace trivial h₂
        have hflagged : Flagged s₂ jobId :=
          Trace.preserves (I := fun s => Flagged s jobId) (fun s e s' _ ha hs => hs.preserved ha)
            htrace (cancelJob_flagged ⟨job, hjob, hid⟩)
        obtain ⟨j, hj, hjid, hjflag⟩ := id hflagged
        exact ⟨⟨j, hj, hjid, Or.inl hjflag⟩, fun _ => hflagged⟩

/-! ## The next pass of the finalizer -/

theorem finalizeAll_keeps {now : Time} {jobs : List Job} {j : Job} {s : Store} (hj : j ∈ s.jobs)
    (hne : ∀ k ∈ jobs, j.id ≠ k.id) :
    j ∈ (jobs.foldl (fun s job => finalizeJob now job s) s).jobs := by
  induction jobs generalizing s with
  | nil => exact hj
  | cons k jobs ih =>
      exact ih (finalizeJob_keeps hj (hne k (by simp))) fun k hk => hne k (by simp [hk])

/-- The finalizer ends tasks and starts none. -/
theorem finalizeJob_terminal {now : Time} {job : Job} {jobId : Uuid} {s : Store}
    (h : ∀ t ∈ s.tasks, t.jobId = jobId → t.state.terminal = true) :
    ∀ t ∈ (finalizeJob now job s).tasks, t.jobId = jobId → t.state.terminal = true := by
  have hexpire : ∀ t ∈ (expireStep now job s).tasks, t.jobId = jobId →
      t.state.terminal = true := by
    intro t ht hjob
    unfold expireStep at ht
    split at ht
    · obtain ⟨u, hu, -, hto⟩ := (expireQueued_drains now job.id s).tasks.mem_old ht
      rcases hto with ⟨-, hd⟩ | ⟨-, rfl⟩
      · rw [drained_state hd]
        rfl
      · exact h t hu hjob
    · exact h t ht hjob
  rw [finalizeJob_eq]
  split
  · exact hexpire
  · exact hexpire

/-- The iteration of a cancelled job without active tasks closes it. -/
theorem finalizeJob_cancels {now : Time} {job : Job} {s : Store} (hjob : job ∈ s.jobs)
    (hactive : job.state.terminal = false) (hflag : job.cancelRequestedAt.isSome = true)
    (hend : ∀ t ∈ s.tasks, t.jobId = job.id → t.state.terminal = true) :
    ∃ j ∈ (finalizeJob now job s).jobs, j.id = job.id ∧ j.state = .cancelled := by
  obtain ⟨-, j, hj, hid, -⟩ :=
    @expireStep_trace (fun _ => True) trivial now _ _ hjob hactive
  have htasks : (finalizeJob now job s).tasks = (expireStep now job s).tasks := by
    rw [finalizeJob_eq]
    split <;> rfl
  have hdone : (expireStep now job s).hasNonterminal job.id = false := by
    refine Store.hasNonterminal_eq_false.mpr fun t ht htjob => ?_
    rw [← htasks] at ht
    exact finalizeJob_terminal hend t ht htjob
  rw [finalizeJob_eq, if_neg (by simp [hdone])]
  simp only [closeJob, Store.updateJobs, Table.mem_update]
  exact ⟨_, ⟨j, hj, rfl⟩, by simp [hid], by simp [hid, hflag, finalState]⟩

theorem finalizeAll_cancels {now : Time} {jobs : List Job} {job : Job} {s : Store}
    (hmem : job ∈ jobs) (hdistinct : jobs.Pairwise fun a b => a.id ≠ b.id)
    (hjob : job ∈ s.jobs) (hactive : job.state.terminal = false)
    (hflag : job.cancelRequestedAt.isSome = true)
    (hend : ∀ t ∈ s.tasks, t.jobId = job.id → t.state.terminal = true) :
    ∃ j ∈ (jobs.foldl (fun s job => finalizeJob now job s) s).jobs,
      j.id = job.id ∧ j.state = .cancelled := by
  induction jobs generalizing s with
  | nil => simp at hmem
  | cons k jobs ih =>
      obtain ⟨hne, hrest⟩ := List.pairwise_cons.mp hdistinct
      rw [List.foldl_cons]
      rcases List.mem_cons.mp hmem with rfl | hmem
      · obtain ⟨j, hj, hid, hstate⟩ : ∃ j ∈ (finalizeJob now job s).jobs, j.id = job.id ∧
            j.state = .cancelled := finalizeJob_cancels hjob hactive hflag hend
        refine ⟨j, finalizeAll_keeps hj fun k hk => ?_, hid, hstate⟩
        rw [hid]
        exact hne k hk
      · exact ih hmem hrest (finalizeJob_keeps hjob (hne job hmem).symm)
          (finalizeJob_terminal hend)

/-- A pass that does not find the row locked leaves the job cancelled. -/
theorem finalizeJobs_cancels {x : Txn} {jobId : Uuid} {s : Store} (hs : Quiet jobId s)
    (hflag : Flagged s jobId) (hlock : x.lockedJob jobId = false)
    (hend : ∀ t ∈ s.tasks, t.jobId = jobId → t.state.terminal = true) :
    ∀ j ∈ (finalizeJobs x s).jobs, j.id = jobId → j.state = .cancelled := by
  obtain ⟨job, hjob, rfl, hcancel⟩ := hflag
  have hrow : ∃ j ∈ (finalizeJobs x s).jobs, j.id = job.id ∧ j.state = .cancelled := by
    cases hstate : job.state.terminal with
    | true =>
        refine ⟨job, finalizeAll_keeps hjob fun k hk hid => ?_, rfl,
          hs.cancelled job hjob rfl hcancel hstate⟩
        obtain ⟨hkmem, hkactive⟩ := finalizable_rows.1 k hk
        rw [job_eq_of_id hkmem hjob hid.symm, hstate] at hkactive
        cases hkactive
    | false =>
        refine finalizeAll_cancels (Table.mem_select.mpr ⟨hjob, ?_⟩) finalizable_rows.2 hjob hstate
          hcancel hend
        simp [hstate, hlock]
  obtain ⟨j', hj', hid', hstate'⟩ := hrow
  intro j hj hid
  rw [job_eq_of_id hj hj' (hid.trans hid'.symm)]
  exact hstate'

/-! ## Cancellation is final -/

/-- In every run whose steps leave the stopped job alone: once `request_cancel`
has committed, no task of the job is ever queued, what is leased has been
leased under the same token since, and when nothing is leased any more every
task has ended and the next pass of the finalizer that does not skip the row
leaves the job, unless it had ended before, cancelled. -/
theorem cancellation_final (url : UrlIdentity) (jobId : Uuid) (s₀ : Store) (h₀ : s₀.blank)
    (before after : List Request) (cancel : Request) (hcall : cancel.call = .requestCancel jobId)
    (hreply : reply url cancel (run url s₀ before) = .ok true)
    (hP : StepsMeet (step url) (Request.LeavesStopped url jobId) s₀
      (before ++ cancel :: after)) :
    let s₁ := step url cancel (run url s₀ before)
    let s := run url s₁ after
    (∀ t' ∈ s.tasks, t'.jobId = jobId → t'.state.queued = false ∧
      (t'.state = .leased → ∃ t ∈ s₁.tasks, t.id = t'.id ∧ t.state = .leased ∧
        t.leaseToken = t'.leaseToken)) ∧
    ((∀ t ∈ s.tasks, t.jobId = jobId → t.state ≠ .leased) →
      (∀ t ∈ s.tasks, t.jobId = jobId → t.state.terminal = true) ∧
      ((∃ j ∈ (run url s₀ before).jobs, j.id = jobId ∧ j.state.terminal = false) →
        ∀ x : Txn, x.lockedJob jobId = false →
          ∀ j ∈ (step url ⟨x, .finalizeJobs⟩ s).jobs, j.id = jobId → j.state = .cancelled)) := by
  intro s₁ s
  obtain ⟨hbefore, hcancel, hafter⟩ := stepsMeet_append.mp hP
  have hbody := reply_ok hreply
  rw [hcall] at hbody
  obtain ⟨hstop, hflag⟩ := requestCancel_stops hbody
  have hstart : Halted jobId s₁ s₁ :=
    ⟨(quiet_of_run h₀ hbefore).step hcancel, hstop, fun t ht _ hleased => ⟨t, ht, rfl, hleased, rfl⟩⟩
  have hhalted : Halted jobId s₁ s := runFrom_invariant (fun _ _ hr hs => hs.step hr) hafter hstart
  refine ⟨fun t' ht' hjob => ⟨hhalted.inactive t' ht' hjob, hhalted.leased t' ht' hjob⟩,
    fun hidle => ⟨hhalted.terminal hidle, fun hactive x hlock => ?_⟩⟩
  have hflagged : Flagged s jobId := by
    refine run_preserves (P := fun _ _ => True) (E := fun _ => True)
      (I := fun s => Flagged s jobId) (fun _ _ _ _ _ _ => trivial)
      (fun s e s' _ ha hs => hs.preserved ha) (stepsMeet_of_forall fun _ _ _ => trivial)
      (hflag hactive)
  exact finalizeJobs_cancels hhalted.quiet hflagged hlock (hhalted.terminal hidle)

/-- The crawl is cancelled while its seed is leased: the report that comes then
leaves nothing queued. -/
theorem cancellation_final_crawl :
    let s := run Sample.identity {} [Sample.submit, Sample.claim, Sample.cancel, Sample.complete]
    s.tasks.count (fun t => t.jobId = 1) = 1 ∧
      ∀ t ∈ s.tasks, t.jobId = 1 → t.state.queued = false := by
  have hfinal := cancellation_final Sample.identity 1 {} (by simp [Store.blank])
    [Sample.submit, Sample.claim] [Sample.complete] Sample.cancel rfl (by decide)
    (stepsMeet_of_forall fun r hr s => ⟨fun _ t _ => ⟨?_, ?_⟩, fun _ => ?_⟩)
  · exact ⟨by decide, fun t ht hjob => (hfinal.1 t ht hjob).1⟩
  all_goals simp only [List.cons_append, List.nil_append, List.mem_cons, List.not_mem_nil,
    or_false] at hr
  · rintro ⟨role, taskId, token, errorClass, errorCode, availableAt, metadata, worker, hcall, -⟩
    rcases hr with rfl | rfl | rfl | rfl <;> cases hcall
  · rintro ⟨role, taskId, token, worker, hcall, -⟩
    rcases hr with rfl | rfl | rfl | rfl <;> cases hcall
  · rintro ⟨config, rows, hcall, -⟩
    rcases hr with rfl | rfl | rfl | rfl <;> cases hcall

/-- A remote worker releases the lease of a cancelled job: its task waits for a
retry that no claim grants, and the finalizer leaves the job running. -/
theorem released_after_cancel :
    let s₁ := run Sample.identity {} [Sample.enrol, Sample.submit, Sample.remoteClaim]
    let s := run Sample.identity s₁ [Sample.cancel, Sample.release, Sample.finalize]
    reply Sample.identity Sample.cancel s₁ = .ok true ∧
      (∃ t ∈ s.tasks, t.jobId = 1 ∧ t.state = .retryWait) ∧
      ∃ j ∈ s.jobs, j.id = 1 ∧ j.cancelRequestedAt.isSome = true ∧ j.state = .running := by
  decide

end Lifecycle

end CrawlTrove
