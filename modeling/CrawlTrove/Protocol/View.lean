import CrawlTrove.Relational.Execution
import CrawlTrove.Lifecycle.Provider
import CrawlTrove.Origins.Frames

/-!
# What the two halves of the store must agree on

The worker protocol repeats the fenced transactions of the core in PL/pgSQL.
Two stores look alike (`view`) if they have the same tasks, the same origins
and the same counters on every job. The lemmas say what the statements of
either half do to a view.
-/

namespace CrawlTrove

open Relational Transaction

/-- A job without its life cycle: what `_terminalize` and the finalizer decide
about it. -/
def Job.counters (j : Job) : Job :=
  { j with state := .pending, terminalReason := none, startedAt := none, finishedAt := none }

namespace Protocol

/-- The counters of all jobs. -/
def counters (T : Table Job) : List Job := T.rows.map Job.counters

/-- What a fenced operation leaves for everyone to see. -/
def view (s : Store) : Table Task × List Job × Table Origin :=
  (s.tasks, counters s.jobs, s.origins)

/-! ## Counters -/

theorem counters_update (T : Table Job) (p : Job → Bool) (f : Job → Job)
    (hf : ∀ r, Keyed.key (f r) = Keyed.key r) :
    counters (T.update p f hf) =
      T.rows.map fun j => if p j then (f j).counters else j.counters := by
  unfold counters Table.update
  rw [List.map_map]
  refine List.map_congr_left fun j _ => ?_
  show (if p j then f j else j).counters = _
  split <;> rfl

/-- Two updates of the same rows show the same counters only if they agree on
every row. -/
theorem counters_update_inj {T : Table Job} {p : Job → Bool} {f g : Job → Job}
    {hf : ∀ r, Keyed.key (f r) = Keyed.key r} {hg : ∀ r, Keyed.key (g r) = Keyed.key r} :
    counters (T.update p f hf) = counters (T.update p g hg) ↔
      ∀ j ∈ T, p j = true → (f j).counters = (g j).counters := by
  rw [counters_update, counters_update, List.map_inj_left]
  refine forall₂_congr fun j _ => ?_
  cases p j <;> simp

theorem counters_update_self {T : Table Job} {p : Job → Bool} {f : Job → Job}
    (hf : ∀ r, Keyed.key (f r) = Keyed.key r)
    (h : ∀ j ∈ T, p j = true → (f j).counters = j.counters) :
    counters (T.update p f hf) = counters T := by
  rw [counters_update]
  refine List.map_congr_left fun j hj => ?_
  split
  · rename_i hp
    exact h j hj hp
  · rfl

/-! ## Draining -/

/-- Some task of the job is queued. -/
def hasQueued (jobId : Uuid) (s : Store) : Bool :=
  s.tasks.any fun t => t.jobId = jobId && t.state.queued

theorem drainUnleased_tasks (now : Time) (jobId : Uuid) (reason : String) (s : Store) :
    (drainUnleased now jobId reason s).tasks =
      s.tasks.update (fun t => t.jobId = jobId && t.state.queued)
        (Lifecycle.drainTask now reason) (fun _ => rfl) := by
  rw [Lifecycle.drainUnleased_eq]
  rfl

/-- A drain that finds nothing leaves the store alone. -/
theorem drainUnleased_of_none {now : Time} {jobId : Uuid} {reason : String} {s : Store}
    (h : hasQueued jobId s = false) : drainUnleased now jobId reason s = s := by
  have hnone := Table.any_eq_false.mp h
  have htasks : s.tasks.update (fun t => t.jobId = jobId && t.state.queued)
      (Lifecycle.drainTask now reason) (fun _ => rfl) = s.tasks := by
    refine Table.update_eq_self fun t ht hp => ?_
    rw [hnone t ht] at hp
    cases hp
  rw [Lifecycle.drainUnleased_eq, Table.count_eq_zero.mpr hnone]
  unfold Store.updateTasks
  rw [htasks]
  exact Store.updateJobs_eq_self fun j _ _ => by simp [Lifecycle.drainRow]

/-- A drain shows wherever a task it took is still queued. -/
theorem drainUnleased_shows {now : Time} {jobId : Uuid} {reason : String} {s s' : Store} {t : Task}
    (ht : t ∈ s.tasks) (hjob : t.jobId = jobId) (hqueued : t.state.queued = true)
    (ht' : t ∈ s'.tasks) : view (drainUnleased now jobId reason s) ≠ view s' := by
  intro heq
  have htasks : (drainUnleased now jobId reason s).tasks = s'.tasks := congrArg Prod.fst heq
  rw [drainUnleased_tasks] at htasks
  have hrow := @Table.mem_update_row Task _ (fun t => t.jobId = jobId && t.state.queued)
    (Lifecycle.drainTask now reason) s.tasks t (fun _ => rfl) ht (by simp [hjob, hqueued])
  rw [htasks] at hrow
  have hsame := task_eq_of_id hrow ht' rfl
  have hstate : (Lifecycle.drainTask now reason t).state.queued = t.state.queued :=
    congrArg (fun t => t.state.queued) hsame
  rw [hqueued] at hstate
  cases hstate

/-- Stores in which a task has different states do not look alike. -/
theorem view_ne_of_state {s s' : Store} {t u : Task} (ht : t ∈ s.tasks) (hu : u ∈ s'.tasks)
    (hid : t.id = u.id) (hstate : t.state ≠ u.state) : view s ≠ view s' := by
  intro heq
  have htasks : s.tasks = s'.tasks := congrArg Prod.fst heq
  rw [← htasks] at hu
  rw [task_eq_of_id ht hu hid] at hstate
  exact hstate rfl

end Protocol

end CrawlTrove
