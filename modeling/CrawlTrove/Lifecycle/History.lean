import CrawlTrove.Lifecycle.Moves

/-!
# What no run takes back

Rows age: whatever is called in whatever order, the place of a task and the terms of a job
and of an attempt stay, attempts are only counted up, and what has ended has ended for
good. Nothing is deleted but leases, sessions and permits. The operator's `purge-job`
(`app/admin.py`) is none of these calls: it deletes a job, and the foreign keys of `0004`
cascade to its tasks and attempts.
-/

namespace CrawlTrove

open Relational

namespace Lifecycle

/-- A task row and the same row later. -/
structure TaskAges (t t' : Task) : Prop where
  place : Task.place t' = Task.place t
  attempts : t.attemptCount ≤ t'.attemptCount
  ended : t.state.terminal = true → t'.state = t.state ∧ t'.attemptCount = t.attemptCount

/-- A job row and the same row later. -/
structure JobAges (j j' : Job) : Prop where
  terms : Job.terms j' = Job.terms j
  cancelled : j.cancelRequestedAt.isSome = true → j'.cancelRequestedAt.isSome = true
  ended : j.state.terminal = true → j'.state.terminal = true

/-- Every row of the one store has grown older in the other. -/
structure Remembers (s s' : Store) : Prop where
  tasks : ∀ t ∈ s.tasks, ∃ t' ∈ s'.tasks, TaskAges t t'
  jobs : ∀ j ∈ s.jobs, ∃ j' ∈ s'.jobs, JobAges j j'
  attempts : ∀ a ∈ s.attempts, ∃ a' ∈ s'.attempts, Attempt.terms a' = Attempt.terms a

theorem TaskAges.trans {t t' t'' : Task} (h : TaskAges t t') (h' : TaskAges t' t'') :
    TaskAges t t'' := by
  refine ⟨h'.place.trans h.place, h.attempts.trans h'.attempts, ?_⟩
  intro hend
  obtain ⟨hstate, hcount⟩ := h.ended hend
  obtain ⟨hstate', hcount'⟩ := h'.ended (by rw [hstate, hend])
  exact ⟨hstate'.trans hstate, hcount'.trans hcount⟩

theorem JobAges.trans {j j' j'' : Job} (h : JobAges j j') (h' : JobAges j' j'') :
    JobAges j j'' :=
  ⟨h'.terms.trans h.terms, fun hflag => h'.cancelled (h.cancelled hflag),
    fun hend => h'.ended (h.ended hend)⟩

theorem Remembers.refl (s : Store) : Remembers s s where
  tasks t ht := ⟨t, ht, rfl, le_rfl, fun _ => ⟨rfl, rfl⟩⟩
  jobs j hj := ⟨j, hj, rfl, id, id⟩
  attempts a ha := ⟨a, ha, rfl⟩

theorem Remembers.trans {s s' s'' : Store} (h : Remembers s s') (h' : Remembers s' s'') :
    Remembers s s'' := by
  constructor
  · intro t ht
    obtain ⟨t', ht', hages⟩ := h.tasks t ht
    obtain ⟨t'', ht'', hages'⟩ := h'.tasks t' ht'
    exact ⟨t'', ht'', hages.trans hages'⟩
  · intro j hj
    obtain ⟨j', hj', hages⟩ := h.jobs j hj
    obtain ⟨j'', hj'', hages'⟩ := h'.jobs j' hj'
    exact ⟨j'', hj'', hages.trans hages'⟩
  · intro a ha
    obtain ⟨a', ha', hterms⟩ := h.attempts a ha
    obtain ⟨a'', ha'', hterms'⟩ := h'.attempts a' ha'
    exact ⟨a'', ha'', hterms'.trans hterms⟩

/-- Only a lease counts an attempt, and one that resumes does not. -/
theorem TaskMove.attempts {s : Store} {e : Event} {t t' : Task} (h : TaskMove s e t t') :
    t.attemptCount ≤ t'.attemptCount ∧
      (t.state.terminal = true → t'.attemptCount = t.attemptCount) := by
  have hcore : ∀ t : Task, t.core.attemptCount = t.attemptCount := fun _ => rfl
  cases h with
  | keep h =>
      have hcount : t'.attemptCount = t.attemptCount := h.get Task.attemptCount hcore
      exact ⟨hcount.ge, fun _ => hcount⟩
  | lease token bytes artifacts resumed active room state h =>
      have hcount : t'.attemptCount = t.attemptCount + if resumed then 0 else 1 :=
        h.get Task.attemptCount hcore
      refine ⟨?_, ?_⟩
      · rw [hcount]
        split <;> omega
      · intro hend
        rw [TaskState.not_terminal_of_queued (queued_of_leases state)] at hend
        cases hend
  | settle σ leased ends hblocked hqueued h =>
      have hcount : t'.attemptCount = t.attemptCount := h.get Task.attemptCount hcore
      exact ⟨hcount.ge, fun _ => hcount⟩
  | drain σ queued ends h =>
      have hcount : t'.attemptCount = t.attemptCount := by
        rcases h with h | h
        · exact h.get Task.attemptCount hcore
        · exact h.get Task.attemptCount hcore
      exact ⟨hcount.ge, fun _ => hcount⟩

theorem TaskMove.ages {s : Store} {e : Event} {t t' : Task} (h : TaskMove s e t t') :
    TaskAges t t' :=
  ⟨h.place, h.attempts.1, fun hend => ⟨h.terminal hend, h.attempts.2 hend⟩⟩

theorem Action.remembers {s : Store} {e : Event} {s' : Store} (h : Action s e s') :
    Remembers s s' := by
  constructor
  · intro t ht
    obtain ⟨t', ht', -, hmove⟩ := h.task_new ht
    exact ⟨t', ht', hmove.ages⟩
  · intro j hj
    obtain ⟨j', hj', hterms, hmove⟩ := h.job_new hj
    exact ⟨j', hj', hterms, hmove.flagged, hmove.terminal⟩
  · intro a ha
    obtain ⟨a', ha', hterms, -⟩ := h.attempt_new ha
    exact ⟨a', ha', hterms⟩

/-- From any store, under any calls of any clients in any order: every task, job and
attempt lives on in its place and on its terms, no attempt is uncounted, no cancellation
is taken back, a job that has ended stays ended and a task that has ended keeps its end. -/
theorem history_only_grows (url : UrlIdentity) (s : Store) (requests : List Request) :
    Remembers s (run url s requests) := by
  refine run_preserves (P := fun _ _ => True) (E := fun _ => True) (I := Remembers s) ?_ ?_ ?_
    (Remembers.refl s)
  · exact fun _ _ _ _ _ _ => trivial
  · exact fun _ _ _ _ haction hages => hages.trans haction.remembers
  · exact stepsMeet_of_forall fun _ _ _ => trivial

end Lifecycle

end CrawlTrove
