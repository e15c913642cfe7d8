import CrawlTrove.Lifecycle.Moves

/-!
# Well-formed stores

What every reachable store satisfies and every other invariant builds on: rows
refer to rows that exist, a task has a token and a reservation exactly while it
is leased, the worker attempt of a leased or parked task is there and free of
costs, and provider attempts carry no bytes.
-/

namespace CrawlTrove

open Relational

namespace Lifecycle

/-! ## The invariant -/

/-- The lease columns of a task agree with its state. -/
structure LeaseOk (t : Task) : Prop where
  token : t.leaseToken.isSome = true ↔ t.state = .leased
  held : t.state = .leased → 0 < t.byteBudgetReserved ∧ 0 < t.artifactBudgetReserved
  free : t.state ≠ .leased → t.byteBudgetReserved = 0 ∧ t.artifactBudgetReserved = 0

/-- `a` is the worker attempt of the task's current lease, without costs. -/
structure Current (t : Task) (a : Attempt) : Prop where
  task : a.taskId = t.id ∧ a.jobId = t.jobId
  number : a.attemptNumber = t.attemptCount
  worker : a.leaseToken = none
  free : a.actualCost.downloadedBytes.getD 0 = 0 ∧ a.actualCost.artifactBytes.getD 0 = 0

/-- A provider attempt has a route, and its costs are native costs of the
route's meters. -/
structure ProviderOk (a : Attempt) : Prop where
  route : ∃ route, a.route = some route ∧ a.provider = some route.provider ∧
    (∀ m, 0 ≤ a.reservedCost.amount m) ∧
    (∀ m, m ∉ route.meters → a.reservedCost.native m = 0) ∧
    ∀ m, m ∉ route.meters → a.actualCost.native m = 0
  bytes : a.actualCost.downloadedBytes.getD 0 = 0 ∧ a.actualCost.artifactBytes.getD 0 = 0
  unsettled : a.finishedAt = none → ∀ m, a.actualCost.native m = 0

/-- The task has a worker attempt that is not settled. -/
def Occupied (t : Task) : Prop := t.state = .leased ∨ t.state = .waitingInput

structure WellFormed (s : Store) : Prop where
  leases : ∀ t ∈ s.tasks, LeaseOk t
  task_job : ∀ t ∈ s.tasks, ∃ j ∈ s.jobs, j.id = t.jobId
  attempt_task : ∀ a ∈ s.attempts, ∃ t ∈ s.tasks, t.id = a.taskId ∧ t.jobId = a.jobId
  current : ∀ t ∈ s.tasks, Occupied t → ∃ a ∈ s.attempts, Current t a
  provider : ∀ a ∈ s.attempts, a.leaseToken.isSome = true → ProviderOk a

/-! ## Lease columns -/

theorem LeaseOk.pending {t : Task} (h : t.state = .pending ∧ t.leaseToken = none ∧
    t.byteBudgetReserved = 0 ∧ t.artifactBudgetReserved = 0) : LeaseOk t where
  token := by simp [h.1, h.2.1]
  held := by simp [h.1]
  free := fun _ => h.2.2

/-- Only the columns `core` keeps count. -/
theorem LeaseOk.of_to {spec : Task → Task} {t t' : Task} (h : Task.To spec t t')
    (hspec : LeaseOk (spec t)) : LeaseOk t' := by
  have hstate := h.get Task.state fun _ => rfl
  have htoken := h.get Task.leaseToken fun _ => rfl
  have hbytes := h.get Task.byteBudgetReserved fun _ => rfl
  have hartifacts := h.get Task.artifactBudgetReserved fun _ => rfl
  constructor
  · rw [hstate, htoken]
    exact hspec.token
  · rw [hstate, hbytes, hartifacts]
    exact hspec.held
  · rw [hstate, hbytes, hartifacts]
    exact hspec.free

/-- A row that gave up its lease is in order in any other state. -/
theorem LeaseOk.settle {σ : TaskState} (hσ : σ ≠ .leased) (t : Task) :
    LeaseOk (settleTask σ t) where
  token := by simp [settleTask, Task.unlease, hσ]
  held := fun h => absurd h hσ
  free := fun _ => ⟨rfl, rfl⟩

theorem TaskMove.leaseOk {s : Store} {e : Event} {t t' : Task} (h : TaskMove s e t t')
    (ht : LeaseOk t) : LeaseOk t' := by
  cases h with
  | keep h => exact .of_to h ht
  | lease token bytes artifacts resumed active room state h =>
      exact .of_to h ⟨by simp [granted], fun _ => room, by simp [granted]⟩
  | settle σ leased ends hblocked hqueued h => exact .of_to h (.settle ends.1 t)
  | drain σ queued ends h =>
      have hσ : σ ≠ .leased := by rcases ends with rfl | rfl <;> simp
      rcases h with h | h
      · exact .of_to h (.settle hσ t)
      · have hfree : t.state ≠ .leased := by
          intro hleased
          rw [hleased] at queued
          cases queued
        refine .of_to h ⟨?_, fun h => absurd h hσ, fun _ => ht.free hfree⟩
        have hnone : t.leaseToken.isSome ≠ true := fun h => hfree (ht.token.mp h)
        exact ⟨fun h => absurd h hnone, fun h => absurd h hσ⟩

/-! ## Provider attempts -/

theorem ProviderOk.of_reserves {j : Job} {t : Task} {a : Attempt} {route : Route} {s s' : Store}
    (h : Reserves j t a route s s') : ProviderOk a where
  route := ⟨route, h.attempt.2.2.1, h.attempt.2.2.2.1, h.cost.1, h.cost.2, by
    rw [h.attempt.2.2.2.2.2.2.2]
    exact fun _ _ => rfl⟩
  bytes := by
    rw [h.attempt.2.2.2.2.2.2.2]
    exact ⟨rfl, rfl⟩
  unsettled := by
    rw [h.attempt.2.2.2.2.2.2.2]
    exact fun _ _ => rfl

/-- The closed attempt of a lease is the worker's, never a provider's. -/
theorem WellFormed.current_worker {s : Store} (h : WellFormed s) {t : Task} {a : Attempt}
    (ht : t ∈ s.tasks) (hstate : Occupied t) (ha : a ∈ s.attempts)
    (hcurrent : a.taskId = t.id ∧ a.attemptNumber = t.attemptCount) : Current t a := by
  obtain ⟨b, hb, hcur⟩ := h.current t ht hstate
  rw [attempt_eq_of_number ha hb (hcurrent.1.trans hcur.task.1.symm)
    (hcurrent.2.trans hcur.number.symm)]
  exact hcur

/-- The current attempt is the one row its selection finds. -/
theorem select_current {s : Store} {t : Task} {a : Attempt} (ha : a ∈ s.attempts)
    (hcur : Current t a) : s.attempts.select (currentAttempt t) = [a] := by
  refine Table.select_eq_singleton ha ?_ fun b hb hp => ?_
  · simp [currentAttempt, hcur.task.1, hcur.number]
  · simp only [currentAttempt, Bool.and_eq_true, decide_eq_true_eq] at hp
    exact attempt_eq_of_number hb ha (hp.1.trans hcur.task.1.symm)
      (hp.2.trans hcur.number.symm)

theorem AttemptMove.providerOk {s : Store} (hs : WellFormed s) {a a' : Attempt}
    (ha : a ∈ s.attempts) (hterms : Attempt.terms a' = Attempt.terms a) (h : AttemptMove s a a')
    (htoken : a'.leaseToken.isSome = true) : ProviderOk a' := by
  simp only [Attempt.terms, Prod.mk.injEq] at hterms
  obtain ⟨-, -, -, -, hroute, hprovider, htok, hreserved⟩ := hterms
  rw [htok] at htoken
  have hok := hs.provider a ha htoken
  obtain ⟨route, hr, hp, hpos, hoff, hact⟩ := hok.route
  cases h with
  | keep h =>
      rw [h]
      exact hok
  | close t downloaded artifacts task state current h =>
      have hworker := (hs.current_worker task state ha current).worker
      rw [hworker] at htoken
      cases htoken
  | consume actual outstanding cost finished h =>
      refine ⟨⟨route, hroute.trans hr, hprovider.trans hp, ?_, ?_, ?_⟩, ?_, ?_⟩
      · rw [hreserved]
        exact hpos
      · rw [hreserved]
        exact hoff
      · rw [h]
        exact cost route hr
      · rw [h]
        exact ⟨rfl, rfl⟩
      · intro hnone
        rw [hnone] at finished
        cases finished

/-! ## Current attempts -/

/-- Worker attempts stay, and no task becomes occupied. -/
theorem current_keep {s s' : Store} (hs : WellFormed s)
    (hattempts : ∀ a ∈ s.attempts, a.leaseToken = none → a ∈ s'.attempts)
    (htasks : ∀ t' ∈ s'.tasks, Occupied t' → ∃ t ∈ s.tasks, Occupied t ∧ t'.id = t.id ∧
      t'.jobId = t.jobId ∧ t'.attemptCount = t.attemptCount) :
    ∀ t' ∈ s'.tasks, Occupied t' → ∃ a ∈ s'.attempts, Current t' a := by
  intro t' ht' hocc
  obtain ⟨t, ht, hocc', hid, hjob, hcount⟩ := htasks t' ht' hocc
  obtain ⟨a, ha, hcur⟩ := hs.current t ht hocc'
  exact ⟨a, hattempts a ha hcur.worker, ⟨hcur.task.1.trans hid.symm, hcur.task.2.trans hjob.symm⟩,
    hcur.number.trans hcount.symm, hcur.worker, hcur.free⟩

/-- A change of some rows after which they are not occupied occupies none. -/
theorem occupied_of_changed {s s' : Store} {p : Task → Bool} {R : Task → Task → Prop}
    (h : s.tasks.Changed p R s'.tasks) (hR : ∀ t t', t ∈ s.tasks → p t = true → R t t' →
      Occupied t' → Occupied t ∧ t'.id = t.id ∧ t'.jobId = t.jobId ∧
        t'.attemptCount = t.attemptCount) :
    ∀ t' ∈ s'.tasks, Occupied t' → ∃ t ∈ s.tasks, Occupied t ∧ t'.id = t.id ∧
      t'.jobId = t.jobId ∧ t'.attemptCount = t.attemptCount := by
  intro t' ht' hocc
  obtain ⟨t, ht, -, h'⟩ := h.mem_old ht'
  rcases h' with ⟨hp, hto⟩ | ⟨-, rfl⟩
  · exact ⟨t, ht, hR t t' ht hp hto hocc⟩
  · exact ⟨t', ht, hocc, rfl, rfl, rfl⟩

theorem occupied_of_insert {s s' : Store} {child : Task}
    (h : s.tasks.insert? child = some s'.tasks) (hchild : child.state = .pending) :
    ∀ t' ∈ s'.tasks, Occupied t' → ∃ t ∈ s.tasks, Occupied t ∧ t'.id = t.id ∧
      t'.jobId = t.jobId ∧ t'.attemptCount = t.attemptCount := by
  intro t' ht' hocc
  rcases (Table.mem_of_insert? h).mp ht' with ht | rfl
  · exact ⟨t', ht, hocc, rfl, rfl, rfl⟩
  · simp [Occupied, hchild] at hocc

theorem drained_not_occupied {σ : TaskState} (hσ : σ = .permanentFailed ∨ σ = .cancelled)
    {t t' : Task} (h : Drained σ t t') : ¬ Occupied t' := by
  have hstate : t'.state = σ := by
    rcases h with h | h
    · exact h.get Task.state fun _ => rfl
    · exact h.get Task.state fun _ => rfl
  rcases hσ with rfl | rfl <;> simp [Occupied, hstate]

/-- Closing one task's attempt keeps the attempts of the others. -/
theorem current_of_closed {s s' : Store} (hs : WellFormed s) {t : Task} {d c : ℤ}
    {R : Task → Task → Prop}
    (ht : t ∈ s.tasks) (hocc : Occupied t)
    (htasks : s.tasks.Changed (fun x => x.id = t.id) R s'.tasks)
    (hattempts : s.attempts.Changed (currentAttempt t) (ClosedWith d c) s'.attempts)
    (hR : ∀ t', R t t' → Occupied t' → t'.id = t.id ∧ t'.jobId = t.jobId ∧
      t'.attemptCount = t.attemptCount ∧ d = 0 ∧ c = 0) :
    ∀ t' ∈ s'.tasks, Occupied t' → ∃ a ∈ s'.attempts, Current t' a := by
  intro t' ht' hocc'
  obtain ⟨u, hu, -, h⟩ := htasks.mem_old ht'
  rcases h with ⟨hid, hto⟩ | ⟨hid, rfl⟩
  · obtain rfl := task_eq_of_id hu ht (of_decide_eq_true hid)
    obtain ⟨hid', hjob, hcount, rfl, rfl⟩ := hR t' hto hocc'
    obtain ⟨a, ha, hcur⟩ := hs.current u hu hocc
    obtain ⟨a', ha', hkey, h'⟩ := hattempts.mem_new ha
    have hkey' : (a'.id, a'.taskId, a'.attemptNumber) = (a.id, a.taskId, a.attemptNumber) := hkey
    simp only [Prod.mk.injEq] at hkey'
    rcases h' with ⟨-, hclosed⟩ | ⟨hne, -⟩
    · exact ⟨a', ha',
        ⟨hkey'.2.1.trans (hcur.task.1.trans hid'.symm),
          hclosed.jobId.trans (hcur.task.2.trans hjob.symm)⟩,
        hkey'.2.2.trans (hcur.number.trans hcount.symm),
        hclosed.leaseToken.trans hcur.worker,
        hclosed.downloaded_eq hcur.free.1, hclosed.artifacts_eq hcur.free.2⟩
    · simp [currentAttempt, hcur.task.1, hcur.number] at hne
  · obtain ⟨a, ha, hcur⟩ := hs.current t' hu hocc'
    refine ⟨a, hattempts.mem_keep ha ?_, hcur⟩
    have hne : a.taskId ≠ t.id := by
      rw [hcur.task.1]
      simpa using hid
    simp [currentAttempt, hne]

theorem Action.current {s : Store} {e : Event} {s' : Store} (hs : WellFormed s)
    (h : Action s e s') : ∀ t ∈ s'.tasks, Occupied t → ∃ a ∈ s'.attempts, Current t a := by
  cases h with
  | idle h =>
      refine current_keep hs (fun a ha _ => h.attempts ▸ ha)
        (occupied_of_changed h.tasks fun t t' _ _ hto hocc => ?_)
      have hstate : t'.state = t.state := hto.get Task.state fun _ => rfl
      exact ⟨by simpa [Occupied, hstate] using hocc, hto.get Task.id fun _ => rfl,
        hto.get Task.jobId fun _ => rfl, hto.get Task.attemptCount fun _ => rfl⟩
  | submit j seed h =>
      exact current_keep hs (fun a ha _ => h.attempts ▸ ha)
        (occupied_of_insert h.tasks h.seed_state.1)
  | lease j t token bytes artifacts resumed h =>
      intro t' ht' hocc'
      obtain ⟨u, hu, -, hu'⟩ := h.tasks.mem_old ht'
      have hkeep : ∀ a ∈ s.attempts, a ∈ s'.attempts := by
        intro a ha
        have hattempts := h.attempts
        cases resumed with
        | true => exact hattempts ▸ ha
        | false =>
            obtain ⟨b, -, -, -, -, -, hinsert⟩ := hattempts
            exact (Table.mem_of_insert? hinsert).mpr (Or.inl ha)
      rcases hu' with ⟨hid, hto⟩ | ⟨-, rfl⟩
      · obtain rfl := task_eq_of_id hu h.task (of_decide_eq_true hid)
        have hid' := hto.get Task.id fun _ => rfl
        have hjob' := hto.get Task.jobId fun _ => rfl
        have hcount' := hto.get Task.attemptCount fun _ => rfl
        have hattempts := h.attempts
        have hstate := h.state
        cases resumed with
        | true =>
            obtain ⟨a, ha, hcur⟩ := hs.current u hu (Or.inr hstate)
            refine ⟨a, hkeep a ha, ⟨hcur.task.1.trans hid'.symm, hcur.task.2.trans hjob'.symm⟩,
              ?_, hcur.worker, hcur.free⟩
            rw [hcur.number, hcount']
            simp [granted]
        | false =>
            obtain ⟨a, hjob, htask, hnumber, hworker, hcost, hinsert⟩ := hattempts
            refine ⟨a, (Table.mem_of_insert? hinsert).mpr (Or.inr rfl),
              ⟨htask.trans hid'.symm, hjob.trans hjob'.symm⟩, ?_, hworker, ?_⟩
            · rw [hnumber, hcount']
              simp [granted]
            · rw [hcost]
              exact ⟨rfl, rfl⟩
      · obtain ⟨a, ha, hcur⟩ := hs.current t' hu hocc'
        exact ⟨a, hkeep a ha, hcur⟩
  | settle e t σ downloaded artifacts counted hblocked hfailed hqueued h =>
      refine current_of_closed hs h.task.1 (Or.inl h.task.2) h.tasks h.attempts fun t' hto hocc => ?_
      have hstate : t'.state = σ := hto.get Task.state fun _ => rfl
      rcases hocc with hleased | hparked
      · exact absurd (hstate.symm.trans hleased) h.ends.1
      · obtain ⟨hd, hc⟩ := h.parked_ok (hstate.symm.trans hparked)
        exact ⟨hto.get Task.id fun _ => rfl, hto.get Task.jobId fun _ => rfl,
          hto.get Task.attemptCount fun _ => rfl, hd, hc⟩
  | drain jobId σ h =>
      exact current_keep hs (fun a ha _ => h.attempts ▸ ha)
        (occupied_of_changed h.tasks fun t t' _ _ hto hocc =>
          absurd hocc (drained_not_occupied h.ends hto))
  | expire e t σ counted hfailed h =>
      exact current_of_closed hs h.task.1 (Or.inr h.task.2) h.tasks h.attempts fun t' hto hocc =>
        absurd hocc (drained_not_occupied h.ends hto)
  | flag jobId now h =>
      exact current_keep hs (fun a ha _ => h.attempts ▸ ha) fun t' ht' hocc =>
        ⟨t', h.tasks ▸ ht', hocc, rfl, rfl, rfl⟩
  | close jobId state h =>
      exact current_keep hs (fun a ha _ => h.attempts ▸ ha) fun t' ht' hocc =>
        ⟨t', h.tasks ▸ ht', hocc, rfl, rfl, rfl⟩
  | discover e j parent child hrevived h =>
      exact current_keep hs (fun a ha _ => h.attempts ▸ ha) (occupied_of_insert h.tasks h.state.1)
  | plant child h =>
      exact current_keep hs (fun a ha _ => h.attempts ▸ ha) (occupied_of_insert h.tasks h.state.1)
  | recount jobId n h =>
      exact current_keep hs (fun a ha _ => h.attempts ▸ ha) fun t' ht' hocc =>
        ⟨t', h.tasks ▸ ht', hocc, rfl, rfl, rfl⟩
  | reserve e j t a route hunread h =>
      exact current_keep hs (fun a ha _ => (Table.mem_of_insert? h.attempts).mpr (Or.inl ha))
        fun t' ht' hocc => ⟨t', h.tasks ▸ ht', hocc, rfl, rfl, rfl⟩
  | consume a released actual h =>
      refine current_keep hs (fun b hb hworker => h.attempts.mem_keep hb ?_)
        fun t' ht' hocc => ⟨t', h.tasks ▸ ht', hocc, rfl, rfl, rfl⟩
      have hne : b.id ≠ a.id := by
        intro hid
        have htoken := h.attempt.2.1
        rw [← attempt_eq_of_id hb h.attempt.1 hid, hworker] at htoken
        cases htoken
      simpa using hne

/-! ## Preservation -/

theorem Action.task_job {s : Store} {e : Event} {s' : Store} (hs : WellFormed s)
    (h : Action s e s') : ∀ t ∈ s'.tasks, ∃ j ∈ s'.jobs, j.id = t.jobId := by
  intro t' ht'
  have hkeep : ∀ j ∈ s.jobs, ∃ j' ∈ s'.jobs, j'.id = j.id := by
    intro j hj
    obtain ⟨j', hj', hterms, -⟩ := h.job_new hj
    exact ⟨j', hj', congrArg Prod.fst hterms⟩
  rcases h.task_old ht' with ⟨t, ht, -, hmove⟩ | harrives
  · obtain ⟨j, hj, hid⟩ := hs.task_job t ht
    obtain ⟨j', hj', hid'⟩ := hkeep j hj
    exact ⟨j', hj', hid'.trans (hid.trans hmove.jobId.symm)⟩
  · cases harrives with
    | seed j h => exact ⟨j, (Table.mem_of_insert? h.jobs).mpr (Or.inr rfl), h.seed_job.symm⟩
    | page j parent h =>
        obtain ⟨j', hj', hid'⟩ := hkeep j h.job.1
        exact ⟨j', hj', hid'.trans (h.job.2.1.trans h.place.1.symm)⟩
    | plant h =>
        obtain ⟨j, hj, hid⟩ := h.job
        obtain ⟨j', hj', hid'⟩ := hkeep j hj
        exact ⟨j', hj', hid'.trans hid⟩

theorem Action.attempt_task {s : Store} {e : Event} {s' : Store} (hs : WellFormed s)
    (h : Action s e s') :
    ∀ a ∈ s'.attempts, ∃ t ∈ s'.tasks, t.id = a.taskId ∧ t.jobId = a.jobId := by
  intro a' ha'
  have hkeep : ∀ t ∈ s.tasks, ∃ t' ∈ s'.tasks, t'.id = t.id ∧ t'.jobId = t.jobId := by
    intro t ht
    obtain ⟨t', ht', -, hmove⟩ := h.task_new ht
    exact ⟨t', ht', hmove.id, hmove.jobId⟩
  have hfrom : ∃ t ∈ s.tasks, t.id = a'.taskId ∧ t.jobId = a'.jobId := by
    rcases h.attempt_old ha' with ⟨a, ha, hterms, -⟩ | harrives
    · simp only [Attempt.terms, Prod.mk.injEq] at hterms
      obtain ⟨t, ht, hid, hjob⟩ := hs.attempt_task a ha
      exact ⟨t, ht, hid.trans hterms.2.2.1.symm, hjob.trans hterms.2.1.symm⟩
    · cases harrives with
      | worker t task h => exact ⟨t, task⟩
      | provider j t route hunread h => exact ⟨t, h.task.1, h.attempt.2.1.symm, h.attempt.1.symm⟩
  obtain ⟨t, ht, hid, hjob⟩ := hfrom
  obtain ⟨t', ht', hid', hjob'⟩ := hkeep t ht
  exact ⟨t', ht', hid'.trans hid, hjob'.trans hjob⟩

/-- Every action preserves well-formedness. -/
theorem WellFormed.preserved {s : Store} {e : Event} {s' : Store} (h : Action s e s')
    (hs : WellFormed s) : WellFormed s' where
  leases := by
    intro t' ht'
    rcases h.task_old ht' with ⟨t, ht, -, hmove⟩ | harrives
    · exact hmove.leaseOk (hs.leases t ht)
    · exact .pending harrives.unleased
  task_job := h.task_job hs
  attempt_task := h.attempt_task hs
  current := h.current hs
  provider := by
    intro a' ha' htoken
    rcases h.attempt_old ha' with ⟨a, ha, hterms, hmove⟩ | harrives
    · exact hmove.providerOk hs ha hterms htoken
    · cases harrives with
      | worker t task h =>
          rw [h.1] at htoken
          cases htoken
      | provider j t route hunread h => exact .of_reserves h

theorem WellFormed.of_blank {s : Store} (h : s.blank) : WellFormed s := by
  obtain ⟨hjobs, htasks, -, -, hattempts, -⟩ := h
  constructor <;> simp [htasks, hattempts]

/-- Every reachable store is well-formed. -/
theorem wellFormed_of_reachable {url : UrlIdentity} {s : Store} (h : Reachable url s) :
    WellFormed s :=
  reachable_invariant (fun _ _ _ ha hs => hs.preserved ha) (fun _ => .of_blank) h

end Lifecycle

end CrawlTrove
