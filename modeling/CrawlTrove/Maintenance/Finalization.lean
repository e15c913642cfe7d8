import CrawlTrove.Invariants.Cancellation

/-!
# When the finalizer comes

A job whose tasks have all ended waits for a pass of `finalize_jobs`, which
reads the clock again. `finalized_alike_iff` says which passes leave the same
state and reason: the two before the deadline, or the two after it.
-/

namespace CrawlTrove

open Relational Transaction

open Lifecycle

namespace Maintenance

/-- What a pass of the finalizer left of a job. -/
def outcome (jobId : Uuid) (s : Store) : Option (JobState × Option String) :=
  (s.job? jobId).map fun j => (j.state, j.terminalReason)

/-- What a pass decides on a job, over its tasks as they are. -/
def verdict (now : Time) (j : Job) (s : Store) : JobState × Option String :=
  let state := finalState j.cancelRequestedAt.isSome (decide (j.deadlineAt ≤ now))
    (tally s j.id (· = .succeeded)) (tally s j.id (· = .blockedRobots))
    (tally s j.id TaskState.failed)
  (state, if state = .timedOut then some "deadline" else j.terminalReason)

section Pass

variable {now : Time} {job j : Job} {s : Store}

/-- The deadline check of one job reaches no task of another, and no task that
has ended. -/
theorem tally_expireStep {jobId : Uuid} {p : TaskState → Bool}
    (h : jobId ≠ job.id ∨ ∀ t ∈ s.tasks, t.jobId = jobId → t.state.terminal = true) :
    tally (expireStep now job s) jobId p = tally s jobId p := by
  unfold expireStep
  split
  · have hdrain := expireQueued_drains now job.id s
    unfold tally
    rw [Table.count_eq_total, Table.count_eq_total]
    refine hdrain.tasks.total_eq fun t t' ht hqueued hkey _ => ?_
    have hsame : t'.jobId = t.jobId := congrArg (fun k => k.2.1) hkey
    simp only [Bool.and_eq_true, decide_eq_true_eq] at hqueued
    have hother : t.jobId ≠ jobId := by
      rintro rfl
      rcases h with hne | hended
      · exact hne hqueued.1
      · have hterminal := hended t ht rfl
        rw [TaskState.not_terminal_of_queued hqueued.2] at hterminal
        cases hterminal
    simp [hsame, hother]
  · rfl

theorem tally_finalizeJob (now : Time) {jobId : Uuid} {p : TaskState → Bool}
    (h : jobId ≠ job.id) :
    tally (finalizeJob now job s) jobId p = tally s jobId p := by
  rw [finalizeJob_eq]
  split
  · exact tally_expireStep (Or.inl h)
  · exact tally_expireStep (Or.inl h)

theorem verdict_congr {s' : Store} (h : ∀ p, tally s' j.id p = tally s j.id p) :
    verdict now j s' = verdict now j s := by
  unfold verdict
  rw [h, h, h]

/-- The deadline check of a job without queued tasks leaves its row. -/
theorem expireStep_row (hj : j ∈ s.jobs)
    (hended : ∀ t ∈ s.tasks, t.jobId = j.id → t.state.terminal = true) :
    j ∈ (expireStep now j s).jobs := by
  unfold expireStep
  split
  · have hnone : (s.tasks.count fun t => t.jobId = j.id && t.state.queued) = 0 := by
      refine Table.count_eq_zero.mpr fun t ht => ?_
      by_cases hid : t.jobId = j.id
      · cases hqueued : t.state.queued with
        | false => simp
        | true =>
            have hterminal := hended t ht hid
            rw [TaskState.not_terminal_of_queued hqueued] at hterminal
            cases hterminal
      · simp [hid]
    unfold expireQueued
    dsimp only
    rw [hnone, if_neg (by simp)]
    exact hj
  · exact hj

/-- An iteration on a job whose tasks have ended decides it. -/
theorem finalizeJob_decides (now : Time) (hj : j ∈ s.jobs)
    (hended : ∀ t ∈ s.tasks, t.jobId = j.id → t.state.terminal = true) :
    ∃ k ∈ (finalizeJob now j s).jobs, k.id = j.id ∧
      (k.state, k.terminalReason) = verdict now j s := by
  have htasks : (finalizeJob now j s).tasks = (expireStep now j s).tasks := by
    rw [finalizeJob_eq]
    split <;> rfl
  have hdone : (expireStep now j s).hasNonterminal j.id = false := by
    refine Store.hasNonterminal_eq_false.mpr fun t ht hid => ?_
    rw [← htasks] at ht
    exact finalizeJob_terminal hended t ht hid
  have htally : ∀ p, tally (expireStep now j s) j.id p = tally s j.id p :=
    fun p => tally_expireStep (Or.inr hended)
  rw [finalizeJob_eq, if_neg (by simp [hdone]), ← verdict_congr (s := s) htally]
  simp only [closeJob, Store.updateJobs, Table.mem_update]
  refine ⟨_, ⟨j, expireStep_row hj hended, rfl⟩, ?_, ?_⟩
  · simp
  · rw [if_pos (decide_eq_true rfl)]
    rfl

/-- A pass over several jobs decides each whose tasks have ended. -/
theorem finalizeAll_decides (now : Time) {jobs : List Job} (hmem : j ∈ jobs)
    (hdistinct : jobs.Pairwise fun a b => a.id ≠ b.id) (hj : j ∈ s.jobs)
    (hended : ∀ t ∈ s.tasks, t.jobId = j.id → t.state.terminal = true) :
    ∃ k ∈ (jobs.foldl (fun s job => finalizeJob now job s) s).jobs, k.id = j.id ∧
      (k.state, k.terminalReason) = verdict now j s := by
  induction jobs generalizing s with
  | nil => simp at hmem
  | cons first jobs ih =>
      obtain ⟨hne, hrest⟩ := List.pairwise_cons.mp hdistinct
      rw [List.foldl_cons]
      rcases List.mem_cons.mp hmem with rfl | hmem
      · obtain ⟨k, hk, hid, hdecided⟩ := finalizeJob_decides now hj hended
        refine ⟨k, finalizeAll_keeps hk fun l hl => ?_, hid, hdecided⟩
        rw [hid]
        exact hne l hl
      · have hother : j.id ≠ first.id := (hne j hmem).symm
        rw [← verdict_congr fun p => tally_finalizeJob now (s := s) hother]
        exact ih hmem hrest (finalizeJob_keeps hj hother) (finalizeJob_terminal hended)

theorem finalizeJobs_outcome {x : Txn} (hj : j ∈ s.jobs) (hactive : j.state.terminal = false)
    (hlock : x.lockedJob j.id = false)
    (hended : ∀ t ∈ s.tasks, t.jobId = j.id → t.state.terminal = true) :
    outcome j.id (finalizeJobs x s) = some (verdict x.now j s) := by
  have hmem : j ∈ s.jobs.select fun j => !j.state.terminal && !x.lockedJob j.id :=
    Table.mem_select.mpr ⟨hj, by simp [hactive, hlock]⟩
  obtain ⟨k, hk, hid, hdecided⟩ :=
    finalizeAll_decides x.now hmem finalizable_rows.2 hj hended
  have hfound : (finalizeJobs x s).job? j.id = some k := Store.job?_eq_some.mpr ⟨hk, hid⟩
  unfold outcome
  rw [hfound, Option.map_some, hdecided]

end Pass

/-! ## Which passes agree -/

/-- Before the deadline no verdict on a job that nobody cancelled is `timed_out`. -/
theorem finalState_ne_timedOut (succeeded blocked failed : ℤ) :
    finalState false false succeeded blocked failed ≠ .timedOut := by
  unfold finalState
  split_ifs <;> simp

/-- Two passes over a job whose tasks have ended leave the same state and
reason exactly when both find the deadline ahead or both find it over. -/
theorem finalized_alike_iff (x y : Txn) (s : Store) (j : Job) (hj : j ∈ s.jobs)
    (hactive : j.state.terminal = false) (huncancelled : j.cancelRequestedAt = none)
    (hended : ∀ t ∈ s.tasks, t.jobId = j.id → t.state.terminal = true)
    (hx : x.lockedJob j.id = false) (hy : y.lockedJob j.id = false) :
    outcome j.id (finalizeJobs x s) = outcome j.id (finalizeJobs y s) ↔
      (j.deadlineAt ≤ x.now ↔ j.deadlineAt ≤ y.now) := by
  rw [finalizeJobs_outcome hj hactive hx hended, finalizeJobs_outcome hj hactive hy hended,
    Option.some.injEq]
  unfold verdict
  rw [huncancelled]
  have hsooner := finalState_ne_timedOut (tally s j.id (· = .succeeded))
    (tally s j.id (· = .blockedRobots)) (tally s j.id TaskState.failed)
  have hlater : finalState false true (tally s j.id (· = .succeeded))
      (tally s j.id (· = .blockedRobots)) (tally s j.id TaskState.failed) = .timedOut := rfl
  by_cases hxdue : j.deadlineAt ≤ x.now
  · by_cases hydue : j.deadlineAt ≤ y.now
    · simp [hxdue, hydue]
    · refine iff_of_false (fun heq => hsooner ?_) (by simp [hxdue, hydue])
      have hstate := congrArg Prod.fst heq
      simpa [hxdue, hydue, hlater] using hstate.symm
  · by_cases hydue : j.deadlineAt ≤ y.now
    · refine iff_of_false (fun heq => hsooner ?_) (by simp [hxdue, hydue])
      have hstate := congrArg Prod.fst heq
      simpa [hxdue, hydue, hlater] using hstate
    · simp [hxdue, hydue]

/-- The sample crawl of one page, whose seed succeeded after two seconds. -/
def crawled : Store := run Sample.identity {} [Sample.submit, Sample.claim, Sample.succeed]

theorem finalized_alike_crawl :
    outcome 1 (finalizeJobs { now := seconds 4, uuid := id } crawled) =
      outcome 1 (finalizeJobs { now := seconds 21599, uuid := id } crawled) := by
  have hrow : ∃ j ∈ crawled.jobs, j.id = 1 ∧ j.state.terminal = false ∧
      j.cancelRequestedAt = none ∧
      (∀ t ∈ crawled.tasks, t.jobId = j.id → t.state.terminal = true) ∧
      (j.deadlineAt ≤ seconds 4 ↔ j.deadlineAt ≤ seconds 21599) := by decide
  obtain ⟨j, hj, hid, hactive, huncancelled, hended, hsides⟩ := hrow
  rw [← hid]
  exact (finalized_alike_iff { now := seconds 4, uuid := id } { now := seconds 21599, uuid := id }
    crawled j hj hactive huncancelled hended rfl rfl).mpr hsides

/-- The same crawl, finished hours before its deadline, is `completed` if a
pass finds it in time and `timed_out` if one finds it at the deadline. -/
theorem finalized_late :
    ¬ outcome 1 (finalizeJobs { now := seconds 4, uuid := id } crawled) =
      outcome 1 (finalizeJobs { now := seconds 21600, uuid := id } crawled) := by
  have hsoon : outcome 1 (finalizeJobs { now := seconds 4, uuid := id } crawled) =
      some (.completed, none) := by decide
  have hlate : outcome 1 (finalizeJobs { now := seconds 21600, uuid := id } crawled) =
      some (.timedOut, some "deadline") := by decide
  rw [hsoon, hlate]
  simp

end Maintenance

end CrawlTrove
