import CrawlTrove.Invariants.Counters

/-!
# Byte and artifact budgets

The reservations of a job are those of its leased tasks, and what it has
downloaded together with what it has reserved stays within its budget. A
released reservation is therefore always there: the clamps in the releasing
statements never clamp.
-/

namespace CrawlTrove

open Relational Transaction

namespace Lifecycle

/-! ## The invariant -/

/-- The job keeps within its two budgets. -/
structure WithinBudget (j : Job) : Prop where
  bytes : j.downloadedBytes + j.reservedBytes ≤ j.maxBytes
  artifacts : j.artifactBytes + j.reservedArtifactBytes ≤ j.maxArtifactBytes

structure Budgeted (s : Store) : Prop where
  bytes : ∀ jobId, Balanced jobId Job.reservedBytes Task.byteBudgetReserved s
  artifacts : ∀ jobId, Balanced jobId Job.reservedArtifactBytes Task.artifactBudgetReserved s
  within : ∀ j ∈ s.jobs, WithinBudget j

/-- Only the columns `core` keeps count. -/
theorem WithinBudget.of_to {spec : Job → Job} {j j' : Job} (h : Job.To spec j j')
    (hspec : WithinBudget (spec j)) : WithinBudget j' := by
  have hdown := h.get Job.downloadedBytes fun _ => rfl
  have hres := h.get Job.reservedBytes fun _ => rfl
  have hmax := h.get Job.maxBytes fun _ => rfl
  have hart := h.get Job.artifactBytes fun _ => rfl
  have hresArt := h.get Job.reservedArtifactBytes fun _ => rfl
  have hmaxArt := h.get Job.maxArtifactBytes fun _ => rfl
  constructor
  · rw [hdown, hres, hmax]
    exact hspec.bytes
  · rw [hart, hresArt, hmaxArt]
    exact hspec.artifacts

/-- A change of job rows that keeps each within its budget. -/
theorem within_of_changed {p : Job → Bool} {spec : Job → Job} {T U : Table Job}
    (h : T.Changed p (Job.To spec) U) (hT : ∀ j ∈ T, WithinBudget j)
    (hspec : ∀ j ∈ T, p j = true → WithinBudget j → WithinBudget (spec j)) :
    ∀ j ∈ U, WithinBudget j := by
  intro j' hj'
  obtain ⟨j, hj, -, h'⟩ := h.mem_old hj'
  rcases h' with ⟨hp, hto⟩ | ⟨-, rfl⟩
  · exact .of_to hto (hspec j hj hp (hT j hj))
  · exact hT j' hj

/-- What a leased task reserved, its job reserved. -/
theorem Budgeted.reserved_le {s : Store} (hs : WellFormed s) (h : Budgeted s) {t : Task} {j : Job}
    (ht : t ∈ s.tasks) (hj : j ∈ s.jobs) (hid : j.id = t.jobId) :
    t.byteBudgetReserved ≤ j.reservedBytes ∧
      t.artifactBudgetReserved ≤ j.reservedArtifactBytes :=
  ⟨(h.bytes t.jobId).le (reservedBytes_gauge (fun _ => True) _) hs hj hid ht rfl,
    (h.artifacts t.jobId).le (reservedArtifactBytes_gauge (fun _ => True) _) hs hj hid ht rfl⟩

/-- Settling a lease charges at most what it had reserved. -/
theorem WithinBudget.settle {t : Task} {σ : TaskState} {d a : ℤ} {counted : Bool} {j : Job}
    (h : WithinBudget j) (hd : d ≤ t.byteBudgetReserved) (ha : a ≤ t.artifactBudgetReserved)
    (hbytes : t.byteBudgetReserved ≤ j.reservedBytes)
    (hartifacts : t.artifactBudgetReserved ≤ j.reservedArtifactBytes) :
    WithinBudget (settleJob t σ d a counted j) := by
  obtain ⟨h₁, h₂⟩ := h
  constructor
  · simp only [settleJob]
    omega
  · simp only [settleJob]
    omega

theorem WithinBudget.reserve {j : Job} {bytes artifacts : ℤ}
    (hbytes : bytes ≤ j.remainingBytes) (hartifacts : artifacts ≤ j.remainingArtifacts) :
    WithinBudget (reserve bytes artifacts j) := by
  unfold Job.remainingBytes at hbytes
  unfold Job.remainingArtifacts at hartifacts
  constructor
  · simp only [Lifecycle.reserve]
    omega
  · simp only [Lifecycle.reserve]
    omega

theorem Action.within {s : Store} {e : Event} {s' : Store} (ha : Action s e s')
    (hs : WellFormed s) (h : Budgeted s) : ∀ j ∈ s'.jobs, WithinBudget j := by
  cases ha with
  | idle ha => exact within_of_changed ha.jobs h.within fun _ _ _ hj => hj
  | submit j seed ha =>
      intro j' hj'
      rcases (Table.mem_of_insert? ha.jobs).mp hj' with hj | rfl
      · exact h.within j' hj
      · obtain ⟨hres, hart, hdown, hartBytes, hmax, hmaxArt⟩ := ha.budget
        exact ⟨by rw [hres, hdown]; simpa using hmax, by rw [hart, hartBytes]; simpa using hmaxArt⟩
  | lease j t token bytes artifacts resumed ha =>
      refine within_of_changed ha.jobs h.within fun k hk hid _ => ?_
      obtain rfl := job_eq_of_id hk ha.job.1 ((of_decide_eq_true hid).trans ha.job.2.1.symm)
      exact .reserve ha.bytes_ok.2 ha.artifacts_ok.2
  | settle e t σ downloaded artifacts counted hblocked hfailed hqueued ha =>
      refine within_of_changed ha.jobs h.within fun k hk hid hwithin => ?_
      obtain ⟨hbytes, hartifacts⟩ :=
        h.reserved_le hs ha.task.1 hk (of_decide_eq_true hid)
      obtain ⟨hpos, hposArt⟩ := (hs.leases t ha.task.1).reserved_nonneg
      exact hwithin.settle (ha.downloaded_ok hpos).2 (ha.artifacts_ok hposArt).2 hbytes hartifacts
  | drain k σ ha => exact within_of_changed ha.jobs h.within fun _ _ _ hj => ⟨hj.bytes, hj.artifacts⟩
  | expire e t σ counted hfailed ha =>
      exact within_of_changed ha.jobs h.within fun _ _ _ hj => ⟨hj.bytes, hj.artifacts⟩
  | flag k now ha => exact within_of_changed ha.jobs h.within fun _ _ _ hj => ⟨hj.bytes, hj.artifacts⟩
  | close k state ha =>
      exact within_of_changed ha.jobs h.within fun _ _ _ hj => ⟨hj.bytes, hj.artifacts⟩
  | discover e k parent child hrevived ha =>
      exact within_of_changed ha.jobs h.within fun _ _ _ hj => ⟨hj.bytes, hj.artifacts⟩
  | plant child ha =>
      rw [ha.jobs]
      exact h.within
  | recount k n ha =>
      exact within_of_changed ha.jobs h.within fun _ _ _ hj => ⟨hj.bytes, hj.artifacts⟩
  | reserve e k t a route hunread ha =>
      rw [ha.jobs]
      exact h.within
  | consume a released actual ha =>
      rw [ha.jobs]
      exact h.within

theorem Budgeted.preserved {s : Store} {e : Event} {s' : Store} (ha : Action s e s')
    (hs : WellFormed s) (h : Budgeted s) : Budgeted s' where
  bytes := fun jobId =>
    (h.bytes jobId).preserved (reservedBytes_gauge (fun _ => True) jobId) trivial ha hs
  artifacts := fun jobId =>
    (h.artifacts jobId).preserved (reservedArtifactBytes_gauge (fun _ => True) jobId) trivial ha hs
  within := ha.within hs h

/-- A well-formed store within its budgets. -/
def Sound (s : Store) : Prop := WellFormed s ∧ Budgeted s

theorem Sound.preserved {s : Store} {e : Event} {s' : Store} (ha : Action s e s')
    (h : Sound s) : Sound s' := ⟨h.1.preserved ha, h.2.preserved ha h.1⟩

theorem Sound.of_blank {s : Store} (h : s.blank) : Sound s :=
  ⟨.of_blank h, fun _ => .of_blank h, fun _ => .of_blank h, fun j hj => by
    rw [h.1] at hj
    simp at hj⟩

theorem sound_of_reachable {url : UrlIdentity} {s : Store} (h : Reachable url s) : Sound s :=
  reachable_invariant (fun _ _ _ ha hs => hs.preserved ha) (fun _ => .of_blank) h

/-! ## What it says of the store -/

/-- The leased tasks of a job. -/
def leasedTasks (s : Store) (jobId : Uuid) : List Task :=
  s.tasks.select fun t => t.jobId = jobId && t.state = .leased

/-- The sum over all tasks of the job is the sum over its leased ones. -/
theorem total_leased {s : Store} (jobId : Uuid) (φ : Task → ℤ)
    (hφ : ∀ t ∈ s.tasks, t.state ≠ .leased → φ t = 0) :
    s.tasks.total (share jobId φ) = ((leasedTasks s jobId).map φ).sum := by
  unfold leasedTasks
  rw [← Table.total_ite]
  refine Table.total_congr fun t ht => ?_
  by_cases hjob : t.jobId = jobId
  · by_cases hleased : t.state = .leased
    · simp [share, hjob, hleased]
    · simp [share, hjob, hleased, hφ t ht hleased]
  · simp [share, hjob]

/-- Releasing any lease subtracts what the job has reserved for it. -/
def ReleasesExactly (s : Store) : Prop :=
  ∀ t ∈ s.tasks, t.state = .leased → ∀ j ∈ s.jobs, j.id = t.jobId →
    0 ≤ j.reservedBytes - t.byteBudgetReserved ∧
      0 ≤ j.reservedArtifactBytes - t.artifactBudgetReserved

theorem Sound.releasesExactly {s : Store} (h : Sound s) : ReleasesExactly s := by
  intro t ht _ j hj hid
  obtain ⟨hbytes, hartifacts⟩ := h.2.reserved_le h.1 ht hj hid
  omega

theorem Sound.trace {s s' : Store} {ok : Event → Prop} (h : Sound s)
    (htrace : Trace Action ok s s') : Sound s' :=
  htrace.preserves (fun _ _ _ _ ha hs => hs.preserved ha) h

/-- Each job keeps within its budgets and has reserved what its leased tasks
hold, and no release clamps, at any point of a pass that reaps many leases. -/
theorem budget_safe (url : UrlIdentity) (s : Store) (h : Reachable url s) :
    (∀ j ∈ s.jobs,
      j.downloadedBytes + j.reservedBytes ≤ j.maxBytes ∧
      j.artifactBytes + j.reservedArtifactBytes ≤ j.maxArtifactBytes ∧
      j.reservedBytes = ((leasedTasks s j.id).map Task.byteBudgetReserved).sum ∧
      j.reservedArtifactBytes = ((leasedTasks s j.id).map Task.artifactBudgetReserved).sum) ∧
    ReleasesExactly s ∧
    ∀ x s₁ leases n s₂, reconcileAbandoned x none s = .ok (⟨⟩, s₁) →
      reapLeases x leases 0 s₁ = .ok (n, s₂) → ReleasesExactly s₁ ∧ ReleasesExactly s₂ := by
  have hsound := sound_of_reachable h
  refine ⟨fun j hj => ?_, hsound.releasesExactly, fun x s₁ leases n s₂ h₁ h₂ => ?_⟩
  · have hwithin := hsound.2.within j hj
    refine ⟨hwithin.bytes, hwithin.artifacts, ?_, ?_⟩
    · rw [hsound.2.bytes j.id j hj rfl]
      exact total_leased j.id _ fun t ht hfree => ((hsound.1.leases t ht).free hfree).1
    · rw [hsound.2.artifacts j.id j hj rfl]
      exact total_leased j.id _ fun t ht hfree => ((hsound.1.leases t ht).free hfree).2
  · have htrace₁ : Trace Action (fun _ => True) s s₁ := reconcileAbandoned_trace trivial h₁
    have htrace₂ : Trace Action (fun _ => True) s₁ s₂ := reapLeases_trace trivial h₂
    have hsound₁ := hsound.trace htrace₁
    have hsound₂ := hsound₁.trace htrace₂
    exact ⟨hsound₁.releasesExactly, hsound₂.releasesExactly⟩

/-- The seed is leased, and what its job has reserved is what this lease holds. -/
theorem budget_safe_claim :
    (∃ j ∈ (run Sample.identity {} [Sample.submit, Sample.claim]).jobs, 0 < j.reservedBytes ∧
        leasedTasks (run Sample.identity {} [Sample.submit, Sample.claim]) j.id ≠ [] ∧
        j.reservedBytes =
          ((leasedTasks (run Sample.identity {} [Sample.submit, Sample.claim]) j.id).map
            Task.byteBudgetReserved).sum) ∧
      ReleasesExactly (run Sample.identity {} [Sample.submit, Sample.claim]) := by
  have hsafe := budget_safe Sample.identity _
    ⟨{}, by simp [Store.blank], [Sample.submit, Sample.claim], rfl⟩
  have hleased : ∃ j ∈ (run Sample.identity {} [Sample.submit, Sample.claim]).jobs,
      0 < j.reservedBytes ∧
        leasedTasks (run Sample.identity {} [Sample.submit, Sample.claim]) j.id ≠ [] := by
    decide
  obtain ⟨j, hj, hreserved, htasks⟩ := hleased
  exact ⟨⟨j, hj, hreserved, htasks, (hsafe.1 j hj).2.2.1⟩, hsafe.2.1⟩

end Lifecycle

end CrawlTrove
