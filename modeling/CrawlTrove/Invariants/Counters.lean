import CrawlTrove.Invariants.WellFormed

/-!
# Cached counters

A `Gauge` is a cached column of a job together with the weight of a task it is
the sum of. Each action changes both sides alike, so the column stays the sum
over the job's tasks; the counters of task states and the two reservations
are instances. The two byte counters are sums over attempts (`Charge`).
-/

namespace CrawlTrove

open Relational

namespace Lifecycle

/-! ## Sums over the tasks of one job -/

/-- The part of a weight that belongs to the job. -/
def share (jobId : Uuid) (φ : Task → ℤ) (t : Task) : ℤ := if t.jobId = jobId then φ t else 0

theorem share_of_to {jobId : Uuid} {φ : Task → ℤ} (hφ : ∀ t : Task, φ t.core = φ t)
    {spec : Task → Task} {t t' : Task} (h : Task.To spec t t') :
    share jobId φ t' = share jobId φ (spec t) :=
  h.get (share jobId φ) fun t => by simp only [share, hφ]; rfl

/-- The sum after one row was rewritten. -/
theorem total_share_single {jobId : Uuid} {φ : Task → ℤ} (hφ : ∀ t : Task, φ t.core = φ t)
    {spec : Task → Task} {t : Task} {T U : Table Task} {s : Store} (hT : T = s.tasks)
    (ht : t ∈ s.tasks) (hspec : (spec t).jobId = t.jobId)
    (h : T.Changed (fun x => x.id = t.id) (Task.To spec) U) :
    U.total (share jobId φ) = T.total (share jobId φ) +
      if t.jobId = jobId then φ (spec t) - φ t else 0 := by
  subst hT
  obtain ⟨t', -, -, hto, htotal⟩ := h.total_single (share jobId φ) (Store.select_task ht)
  rw [htotal, share_of_to hφ hto]
  simp only [share, hspec]
  split
  · rfl
  · rw [sub_self]

/-- What a column of the job reads after the row of one job was rewritten. -/
theorem job_side {g : Job → ℤ} (hg : ∀ j : Job, g j.core = g j) {spec : Job → Job} {jobId : Uuid}
    {s s' : Store} (h : s.jobs.Changed (fun x => x.id = jobId) (Job.To spec) s'.jobs)
    {j' : Job} (hj' : j' ∈ s'.jobs) :
    ∃ j ∈ s.jobs, j.id = j'.id ∧ g j' = if j.id = jobId then g (spec j) else g j := by
  obtain ⟨j, hj, hkey, h'⟩ := h.mem_old hj'
  have hid : j.id = j'.id := (congrArg Prod.fst hkey).symm
  refine ⟨j, hj, hid, ?_⟩
  rcases h' with ⟨hp, hto⟩ | ⟨hp, rfl⟩
  · rw [if_pos (of_decide_eq_true hp)]
    exact hto.get g hg
  · rw [if_neg (of_decide_eq_false hp)]

/-! ## Gauges -/

/-- The column is the sum of the weight over the job's tasks. -/
def Balanced (jobId : Uuid) (g : Job → ℤ) (φ : Task → ℤ) (s : Store) : Prop :=
  ∀ j ∈ s.jobs, j.id = jobId → g j = s.tasks.total (share jobId φ)

/-- What an uncounted end of the task must be labelled as. -/
structure Labels (ok : Event → Prop) (t : Task) (σ : TaskState) (counted : Bool) : Prop where
  uncounted : counted = false → σ = .blockedRobots ∨ σ = .permanentFailed
  blocked : σ = .blockedRobots → ok (.blocked t counted)
  failed : σ = .permanentFailed → counted = false → ok (.uncounted t)

/-- A column and a weight that every permitted action moves alike. -/
structure Gauge (ok : Event → Prop) (jobId : Uuid) (g : Job → ℤ) (φ : Task → ℤ) : Prop where
  job_core : ∀ j : Job, g j.core = g j
  task_core : ∀ t : Task, φ t.core = φ t
  nonneg : ∀ t, LeaseOk t → 0 ≤ φ t
  status : ∀ (j : Job) state flag, g { j with state := state, cancelRequestedAt := flag } = g j
  submit : ∀ j seed s s', Submits j seed s s' → g j = φ seed
  lease : ∀ token bytes artifacts resumed j t, LeaseOk t → t.state.queued = true →
    g (reserve bytes artifacts j) = g j + (φ (granted token bytes artifacts resumed t) - φ t)
  settle : ∀ t σ downloaded artifacts counted j, t.state = .leased → φ t ≤ g j →
    Labels ok t σ counted → t.jobId = jobId →
    g (settleJob t σ downloaded artifacts counted j) = g j + (φ (settleTask σ t) - φ t)
  drain : ∀ σ n counted j, σ = .permanentFailed ∨ σ = .cancelled →
    (counted = false → ∃ t, t.jobId = jobId ∧ ok (.uncounted t)) →
    ∃ δ, g (drainJob σ n counted j) = g j + n * δ ∧
      ∀ t t', LeaseOk t → t.state.queued = true → Drained σ t t' → φ t' - φ t = δ
  discover : ∀ (j : Job) child, LeaseOk child → child.state = .pending →
    g { j with
      discoveredCount := j.discoveredCount + 1
      nextDiscoverySeq := j.nextDiscoverySeq + 1 } = g j + φ child
  plant : ∀ child, child.jobId = jobId → ok (.populated jobId) → LeaseOk child →
    child.state = .pending → φ child = 0
  recount : ∀ (j : Job) n, ok (.populated jobId) →
    g { j with discoveredCount := n, nextDiscoverySeq := n } = g j

theorem drained_jobId {σ : TaskState} {t t' : Task} (h : Drained σ t t') : t'.jobId = t.jobId := by
  rcases h with h | h
  · exact h.get Task.jobId fun _ => rfl
  · exact h.get Task.jobId fun _ => rfl

/-- An arriving row adds its weight. -/
theorem total_share_insert {jobId : Uuid} {φ : Task → ℤ} {child : Task} {T U : Table Task}
    (h : T.insert? child = some U) :
    U.total (share jobId φ) = T.total (share jobId φ) + if child.jobId = jobId then φ child else 0 :=
  Table.total_insert? h

/-- No weight is on a job that is not there yet. -/
theorem total_share_fresh {s s' : Store} {j : Job} {seed : Task} {φ : Task → ℤ}
    (hs : WellFormed s) (h : Submits j seed s s') : s.tasks.total (share j.id φ) = 0 := by
  refine Table.total_zero fun t ht => if_neg fun hid => ?_
  obtain ⟨k, hk, hkid⟩ := hs.task_job t ht
  have hfresh := Table.insert?_fresh h.jobs k hk
  simp [Clashes, Keyed.clash, Keyed.key, hkid, hid] at hfresh

theorem share_nonneg {ok : Event → Prop} {jobId : Uuid} {g : Job → ℤ} {φ : Task → ℤ}
    (hg : Gauge ok jobId g φ) {s : Store} (hs : WellFormed s) :
    ∀ t ∈ s.tasks, 0 ≤ share jobId φ t := by
  intro t ht
  unfold share
  split
  · exact hg.nonneg t (hs.leases t ht)
  · exact le_refl 0

/-- The job carries at least what one of its tasks weighs. -/
theorem Balanced.le {ok : Event → Prop} {jobId : Uuid} {g : Job → ℤ} {φ : Task → ℤ}
    (hg : Gauge ok jobId g φ) {s : Store} (hs : WellFormed s) (h : Balanced jobId g φ s) {j : Job}
    {t : Task} (hj : j ∈ s.jobs) (hid : j.id = jobId) (ht : t ∈ s.tasks) (hjob : t.jobId = jobId) :
    φ t ≤ g j := by
  rw [h j hj hid]
  have hle := Table.le_total ht (share_nonneg hg hs)
  rwa [share, if_pos hjob] at hle

/-- Every permitted action keeps a gauge balanced. -/
theorem Balanced.preserved {ok : Event → Prop} {jobId : Uuid} {g : Job → ℤ} {φ : Task → ℤ}
    (hg : Gauge ok jobId g φ) {s : Store} {e : Event} {s' : Store} (he : ok e)
    (ha : Action s e s') (hs : WellFormed s) (h : Balanced jobId g φ s) :
    Balanced jobId g φ s' := by
  intro j' hj' hid'
  cases ha with
  | idle ha =>
      have htasks : s'.tasks.total (share jobId φ) = s.tasks.total (share jobId φ) :=
        ha.tasks.total_eq fun t t' _ _ _ hto => share_of_to hg.task_core hto
      obtain ⟨j, hj, hkey, hto⟩ := ha.jobs.mem_old hj'
      have hid : j.id = jobId := (congrArg Prod.fst hkey).symm.trans hid'
      rw [htasks, ← h j hj hid]
      rcases hto with ⟨-, hto⟩ | ⟨-, rfl⟩
      · exact hto.get g hg.job_core
      · rfl
  | submit j seed ha =>
      rw [total_share_insert ha.tasks]
      rcases (Table.mem_of_insert? ha.jobs).mp hj' with hj | rfl
      · have hne : seed.jobId ≠ jobId := by
          intro hseed
          have hfresh := Table.insert?_fresh ha.jobs j' hj
          rw [← ha.seed_job.symm.trans hseed] at hid'
          simp [Clashes, Keyed.clash, Keyed.key, hid'] at hfresh
        rw [if_neg hne, add_zero]
        exact h j' hj hid'
      · subst hid'
        rw [if_pos ha.seed_job, total_share_fresh hs ha, zero_add]
        exact hg.submit j' seed s s' ha
  | lease k t token bytes artifacts resumed ha =>
      obtain ⟨j, hj, hid, hgj⟩ := job_side hg.job_core ha.jobs hj'
      rw [total_share_single hg.task_core rfl ha.task rfl ha.tasks, hgj, ← h j hj (hid.trans hid')]
      have hqueued : t.state.queued = true := by
        have hstate := ha.state
        cases resumed with
        | true => rw [hstate]; rfl
        | false => rcases hstate with hst | hst <;> rw [hst] <;> rfl
      by_cases hjob : t.jobId = jobId
      · rw [if_pos hjob, if_pos (hid.trans (hid'.trans hjob.symm))]
        exact hg.lease _ _ _ _ _ _ (hs.leases t ha.task) hqueued
      · rw [if_neg hjob, if_neg fun hk => hjob (hk.symm.trans (hid.trans hid')), add_zero]
  | settle e t σ downloaded artifacts counted hblocked hfailed hqueued ha =>
      obtain ⟨j, hj, hid, hgj⟩ := job_side hg.job_core ha.jobs hj'
      rw [total_share_single hg.task_core rfl ha.task.1 rfl ha.tasks, hgj,
        ← h j hj (hid.trans hid')]
      by_cases hjob : t.jobId = jobId
      · rw [if_pos hjob, if_pos (hid.trans (hid'.trans hjob.symm))]
        refine hg.settle _ _ _ _ _ _ ha.task.2 (h.le hg hs hj (hid.trans hid') ha.task.1 hjob)
          ⟨ha.counted_ok, fun hσ => ?_, fun hσ hcounted => ?_⟩ hjob
        · rw [← hblocked hσ]
          exact he
        · rw [← hfailed hσ hcounted]
          exact he
      · rw [if_neg hjob, if_neg fun hk => hjob (hk.symm.trans (hid.trans hid')), add_zero]
  | drain k σ ha =>
      obtain ⟨j, hj, hid, hgj⟩ := job_side hg.job_core ha.jobs hj'
      rw [hgj]
      by_cases hk : k = jobId
      · subst hk
        rw [if_pos (hid.trans hid')]
        obtain ⟨δ, hδ, hrow⟩ := hg.drain σ
          (s.tasks.count fun t => t.jobId = k && t.state.queued) true j ha.ends (by simp)
        have hsum := ha.tasks.total_const (w := share k φ) δ ?_
        · rw [hsum, hδ, h j hj (hid.trans hid'), Table.count, nsmul_eq_mul]
        · intro t t' ht hp _ hdrained
          simp only [Bool.and_eq_true, decide_eq_true_eq] at hp
          rw [share, share, if_pos hp.1, if_pos ((drained_jobId hdrained).trans hp.1)]
          exact hrow t t' (hs.leases t ht) hp.2 hdrained
      · rw [if_neg fun hjk => hk (hjk.symm.trans (hid.trans hid')), h j hj (hid.trans hid')]
        refine (ha.tasks.total_eq fun t t' _ hp _ hdrained => ?_).symm
        simp only [Bool.and_eq_true, decide_eq_true_eq] at hp
        rw [share, share, if_neg, if_neg]
        · rw [hp.1]
          exact hk
        · rw [drained_jobId hdrained, hp.1]
          exact hk
  | expire e t σ counted hfailed ha =>
      obtain ⟨j, hj, hid, hgj⟩ := job_side hg.job_core ha.jobs hj'
      obtain ⟨t', -, -, hdrained, htotal⟩ :=
        ha.tasks.total_single (share jobId φ) (Store.select_task ha.task.1)
      rw [htotal, hgj, ← h j hj (hid.trans hid'), share, share, drained_jobId hdrained]
      by_cases hjob : t.jobId = jobId
      · obtain ⟨δ, hδ, hrow⟩ := hg.drain σ 1 counted j ha.ends fun hcounted =>
          ⟨t, hjob, by rw [← hfailed hcounted]; exact he⟩
        have hφ := hrow t t' (hs.leases t ha.task.1) (by rw [ha.task.2]; rfl) hdrained
        rw [if_pos hjob, if_pos hjob, if_pos (hid.trans (hid'.trans hjob.symm)), hδ, hφ, one_mul]
      · rw [if_neg hjob, if_neg hjob, if_neg fun hk => hjob (hk.symm.trans (hid.trans hid')),
          sub_self, add_zero]
  | flag k now ha =>
      obtain ⟨j, hj, hid, hgj⟩ := job_side hg.job_core ha.jobs hj'
      rw [ha.tasks, ← h j hj (hid.trans hid'), hgj]
      split
      · exact hg.status j j.state _
      · rfl
  | close k state ha =>
      obtain ⟨j, hj, hid, hgj⟩ := job_side hg.job_core ha.jobs hj'
      rw [ha.tasks, ← h j hj (hid.trans hid'), hgj]
      split
      · exact hg.status j state _
      · rfl
  | discover e k parent child hrevived ha =>
      obtain ⟨j, hj, hid, hgj⟩ := job_side hg.job_core ha.jobs hj'
      rw [total_share_insert ha.tasks, hgj, ← h j hj (hid.trans hid')]
      by_cases hjob : parent.jobId = jobId
      · rw [if_pos (ha.place.1.trans hjob), if_pos (hid.trans (hid'.trans hjob.symm))]
        exact hg.discover j child (.pending ha.state) ha.state.1
      · rw [if_neg fun hc => hjob (ha.place.1.symm.trans hc),
          if_neg fun hk => hjob (hk.symm.trans (hid.trans hid')), add_zero]
  | plant child ha =>
      rw [total_share_insert ha.tasks]
      rw [ha.jobs] at hj'
      rw [h j' hj' hid']
      split
      · rename_i hjob
        rw [hjob] at he
        rw [hg.plant child hjob he (.pending ha.state) ha.state.1, add_zero]
      · rw [add_zero]
  | recount k n ha =>
      obtain ⟨j, hj, hid, hgj⟩ := job_side hg.job_core ha.jobs hj'
      rw [ha.tasks, ← h j hj (hid.trans hid'), hgj]
      split
      · rename_i hk
        rw [← hk, hid, hid'] at he
        exact hg.recount j n he
      · rfl
  | reserve e k t a route hunread ha =>
      rw [ha.jobs] at hj'
      rw [ha.tasks]
      exact h j' hj' hid'
  | consume a released actual ha =>
      rw [ha.jobs] at hj'
      rw [ha.tasks]
      exact h j' hj' hid'

theorem Balanced.of_blank {jobId : Uuid} {g : Job → ℤ} {φ : Task → ℤ} {s : Store}
    (h : s.blank) : Balanced jobId g φ s := by
  intro j hj
  rw [h.1] at hj
  simp at hj

/-! ## Counters of task states -/

/-- One for a task in a state `P` accepts. -/
def inState (P : TaskState → Bool) (t : Task) : ℤ := if P t.state then 1 else 0

/-- A count of the job's tasks by state is a total of their weights. -/
theorem count_inState (s : Store) (jobId : Uuid) (P : TaskState → Bool) :
    (s.tasks.count fun t => t.jobId = jobId && P t.state) =
      s.tasks.total (share jobId (inState P)) := by
  rw [Table.count_eq_total]
  refine Table.total_congr fun t _ => ?_
  unfold share inState
  by_cases hjob : t.jobId = jobId <;> simp [hjob]

/-- A column that counts states: `P` does not tell apart the states before the
end, and each ending adds what `P` gains by it. -/
structure StateGauge (ok : Event → Prop) (jobId : Uuid) (g : Job → ℤ) (P : TaskState → Bool) :
    Prop where
  core : ∀ j : Job, g j.core = g j
  before : ∀ σ : TaskState, σ.terminal = false → P σ = P .pending
  status : ∀ (j : Job) state flag, g { j with state := state, cancelRequestedAt := flag } = g j
  submit : ∀ j seed s s', Submits j seed s s' → g j = if P .pending then 1 else 0
  lease : ∀ bytes artifacts j, g (reserve bytes artifacts j) = g j
  settle : ∀ t σ downloaded artifacts counted j, Labels ok t σ counted → t.jobId = jobId →
    g (settleJob t σ downloaded artifacts counted j) =
      g j + ((if P σ then 1 else 0) - if P .pending then 1 else 0)
  drain : ∀ σ n counted j, σ = .permanentFailed ∨ σ = .cancelled →
    (counted = false → ∃ t, t.jobId = jobId ∧ ok (.uncounted t)) →
    g (drainJob σ n counted j) = g j + n * ((if P σ then 1 else 0) - if P .pending then 1 else 0)
  discover : ∀ j : Job,
    g { j with
      discoveredCount := j.discoveredCount + 1
      nextDiscoverySeq := j.nextDiscoverySeq + 1 } = g j + if P .pending then 1 else 0
  plant : ok (.populated jobId) → P .pending = false
  recount : ∀ (j : Job) n, ok (.populated jobId) →
    g { j with discoveredCount := n, nextDiscoverySeq := n } = g j

theorem drained_state {σ : TaskState} {t t' : Task} (h : Drained σ t t') : t'.state = σ := by
  rcases h with h | h
  · exact h.get Task.state fun _ => rfl
  · exact h.get Task.state fun _ => rfl

theorem StateGauge.gauge {ok : Event → Prop} {jobId : Uuid} {g : Job → ℤ} {P : TaskState → Bool}
    (h : StateGauge ok jobId g P) : Gauge ok jobId g (inState P) where
  job_core := h.core
  task_core := fun _ => rfl
  nonneg := fun t _ => by unfold inState; split <;> simp
  status := h.status
  submit := fun j seed s s' hs => by
    rw [inState, hs.seed_state.1]
    exact h.submit j seed s s' hs
  lease := fun token bytes artifacts resumed j t _ hq => by
    have hleased : P .leased = P .pending := h.before .leased rfl
    have hstate : P t.state = P .pending := h.before _ (TaskState.not_terminal_of_queued hq)
    rw [h.lease, inState, inState, hstate, show (granted token bytes artifacts resumed t).state =
      .leased from rfl, hleased, sub_self, add_zero]
  settle := fun t σ d a counted j hleased _ hlabels hjob => by
    rw [h.settle t σ d a counted j hlabels hjob, inState, inState, hleased,
      h.before .leased rfl]
    rfl
  drain := fun σ n counted j hσ hlabel => by
    refine ⟨_, h.drain σ n counted j hσ hlabel, fun t t' _ hq hd => ?_⟩
    rw [inState, inState, drained_state hd, h.before _ (TaskState.not_terminal_of_queued hq)]
  discover := fun j child _ hpending => by
    rw [h.discover, inState, hpending]
  plant := fun child _ hok _ hpending => by
    simp [inState, hpending, h.plant hok]
  recount := h.recount

/-- The labels under which the counters of the job stay exact: no robots block
and no failure goes uncounted and nothing is populated. -/
def Counts (jobId : Uuid) (e : Event) : Prop :=
  e ≠ .populated jobId ∧ ∀ t, t.jobId = jobId → e ≠ .blocked t false ∧ e ≠ .uncounted t

theorem terminal_gauge (ok : Event → Prop) (jobId : Uuid) :
    Gauge ok jobId Job.terminalCount (inState TaskState.terminal) :=
  StateGauge.gauge
    { core := fun _ => rfl
      before := fun _ h => h
      status := fun _ _ _ => rfl
      submit := fun _ _ _ _ h => by simp [h.counters.2.2.1, TaskState.terminal]
      lease := fun _ _ _ => rfl
      settle := fun _ _ _ _ _ _ _ _ => by simp [settleJob, TaskState.terminal]
      drain := fun _ _ _ _ h _ => by rcases h with rfl | rfl <;> simp [drainJob, TaskState.terminal]
      discover := fun _ => by simp [TaskState.terminal]
      plant := fun _ => rfl
      recount := fun _ _ _ => rfl }

theorem succeeded_gauge (ok : Event → Prop) (jobId : Uuid) :
    Gauge ok jobId Job.succeededCount (inState (· = .succeeded)) :=
  StateGauge.gauge
    { core := fun _ => rfl
      before := fun σ h => by cases σ <;> simp_all [TaskState.terminal]
      status := fun _ _ _ => rfl
      submit := fun _ _ _ _ h => by simp [h.counters.2.2.2.1]
      lease := fun _ _ _ => rfl
      settle := fun _ _ _ _ _ _ _ _ => by simp [settleJob]
      drain := fun _ _ _ _ h _ => by rcases h with rfl | rfl <;> simp [drainJob]
      discover := fun _ => by simp
      plant := fun _ => rfl
      recount := fun _ _ _ => rfl }

theorem failed_gauge (jobId : Uuid) :
    Gauge (Counts jobId) jobId Job.failedCount (inState TaskState.failed) :=
  StateGauge.gauge
    { core := fun _ => rfl
      before := fun σ h => by cases σ <;> simp_all [TaskState.terminal, TaskState.failed]
      status := fun _ _ _ => rfl
      submit := fun _ _ _ _ h => by simp [h.counters.2.2.2.2.1, TaskState.failed]
      lease := fun _ _ _ => rfl
      settle := fun t σ d a counted j hlabels hjob => by
        cases counted with
        | true => cases σ <;> simp [settleJob, TaskState.failed]
        | false =>
            rcases hlabels.uncounted rfl with rfl | rfl
            · simp [settleJob, TaskState.failed]
            · exact absurd rfl ((hlabels.failed rfl rfl).2 t hjob).2
      drain := fun _ _ counted _ h hlabel => by
        cases counted with
        | true => rcases h with rfl | rfl <;> simp [drainJob, TaskState.failed]
        | false =>
            obtain ⟨t, hjob, hok⟩ := hlabel rfl
            exact absurd rfl (hok.2 t hjob).2
      discover := fun _ => by simp [TaskState.failed]
      plant := fun _ => rfl
      recount := fun _ _ _ => rfl }

theorem blocked_gauge (jobId : Uuid) :
    Gauge (Counts jobId) jobId Job.blockedCount (inState (· = .blockedRobots)) :=
  StateGauge.gauge
    { core := fun _ => rfl
      before := fun σ h => by cases σ <;> simp_all [TaskState.terminal]
      status := fun _ _ _ => rfl
      submit := fun _ _ _ _ h => by simp [h.counters.2.2.2.2.2]
      lease := fun _ _ _ => rfl
      settle := fun t σ d a counted j hlabels hjob => by
        by_cases hσ : σ = .blockedRobots
        · cases counted with
          | true => simp [settleJob, hσ]
          | false => exact absurd rfl ((hlabels.blocked hσ).2 t hjob).1
        · simp [settleJob, hσ]
      drain := fun _ _ _ _ h _ => by rcases h with rfl | rfl <;> simp [drainJob]
      discover := fun _ => by simp
      plant := fun _ => rfl
      recount := fun _ _ _ => rfl }

/-! ## Reservations -/

theorem drained_free {σ : TaskState} {t t' : Task} (ht : LeaseOk t) (hq : t.state.queued = true)
    (h : Drained σ t t') : t'.byteBudgetReserved = 0 ∧ t'.artifactBudgetReserved = 0 := by
  have hfree := ht.free fun hleased => by simp [hleased, TaskState.queued] at hq
  rcases h with h | h
  · exact ⟨h.get Task.byteBudgetReserved fun _ => rfl,
      h.get Task.artifactBudgetReserved fun _ => rfl⟩
  · exact ⟨(h.get Task.byteBudgetReserved fun _ => rfl).trans hfree.1,
      (h.get Task.artifactBudgetReserved fun _ => rfl).trans hfree.2⟩

theorem queued_free {t : Task} (ht : LeaseOk t) (hq : t.state.queued = true) :
    t.byteBudgetReserved = 0 ∧ t.artifactBudgetReserved = 0 :=
  ht.free fun hleased => by simp [hleased, TaskState.queued] at hq

theorem LeaseOk.reserved_nonneg {t : Task} (h : LeaseOk t) :
    0 ≤ t.byteBudgetReserved ∧ 0 ≤ t.artifactBudgetReserved := by
  by_cases hleased : t.state = .leased
  · exact ⟨le_of_lt (h.held hleased).1, le_of_lt (h.held hleased).2⟩
  · rw [(h.free hleased).1, (h.free hleased).2]
    exact ⟨le_refl 0, le_refl 0⟩

/-- The reserved bytes of a job are those of its tasks, whatever the labels. -/
theorem reservedBytes_gauge (ok : Event → Prop) (jobId : Uuid) :
    Gauge ok jobId Job.reservedBytes Task.byteBudgetReserved where
  job_core := fun _ => rfl
  task_core := fun _ => rfl
  nonneg := fun _ h => h.reserved_nonneg.1
  status := fun _ _ _ => rfl
  submit := fun j seed _ _ h => by rw [h.budget.1, h.seed_state.2.2.1]
  lease := fun _ _ _ _ _ t ht hq => by simp [reserve, granted, (queued_free ht hq).1]
  settle := fun t σ d a counted j _ hle _ _ => by
    simp only [settleJob, settleTask, Task.unlease]
    omega
  drain := fun σ n counted j _ _ => by
    refine ⟨0, by simp [drainJob], fun t t' ht hq hd => ?_⟩
    rw [(drained_free ht hq hd).1, (queued_free ht hq).1, sub_self]
  discover := fun j child h hpending => by
    simp [(queued_free h (by rw [hpending]; rfl)).1]
  plant := fun child _ _ h hpending => (queued_free h (by rw [hpending]; rfl)).1
  recount := fun _ _ _ => rfl

theorem reservedArtifactBytes_gauge (ok : Event → Prop) (jobId : Uuid) :
    Gauge ok jobId Job.reservedArtifactBytes Task.artifactBudgetReserved where
  job_core := fun _ => rfl
  task_core := fun _ => rfl
  nonneg := fun _ h => h.reserved_nonneg.2
  status := fun _ _ _ => rfl
  submit := fun j seed _ _ h => by rw [h.budget.2.1, h.seed_state.2.2.2]
  lease := fun _ _ _ _ _ t ht hq => by simp [reserve, granted, (queued_free ht hq).2]
  settle := fun t σ d a counted j _ hle _ _ => by
    simp only [settleJob, settleTask, Task.unlease]
    omega
  drain := fun σ n counted j _ _ => by
    refine ⟨0, by simp [drainJob], fun t t' ht hq hd => ?_⟩
    rw [(drained_free ht hq hd).2, (queued_free ht hq).2, sub_self]
  discover := fun j child h hpending => by
    simp [(queued_free h (by rw [hpending]; rfl)).2]
  plant := fun child _ _ h hpending => (queued_free h (by rw [hpending]; rfl)).2
  recount := fun _ _ _ => rfl

/-! ## Bytes charged -/

/-- The part of an attempt's cost that belongs to the job. -/
def cost (jobId : Uuid) (ψ : Attempt → ℤ) (a : Attempt) : ℤ := if a.jobId = jobId then ψ a else 0

/-- The column is the sum of a cost over the job's attempts. -/
def Charged (jobId : Uuid) (g : Job → ℤ) (ψ : Attempt → ℤ) (s : Store) : Prop :=
  ∀ j ∈ s.jobs, j.id = jobId → g j = s.attempts.total (cost jobId ψ)

/-- A column that only settlements move, by what they charge the attempt. -/
structure Charge (g : Job → ℤ) (ψ : Attempt → ℤ) (charged : ℤ → ℤ → ℤ) : Prop where
  core : ∀ j : Job, g j.core = g j
  submit : ∀ j seed s s', Submits j seed s s' → g j = 0
  lease : ∀ bytes artifacts j, g (reserve bytes artifacts j) = g j
  settle : ∀ t σ downloaded artifacts counted j,
    g (settleJob t σ downloaded artifacts counted j) = g j + charged downloaded artifacts
  drain : ∀ σ n counted j, g (drainJob σ n counted j) = g j
  other : ∀ (j : Job) state flag n m,
    g { j with
      state := state, cancelRequestedAt := flag, discoveredCount := n
      nextDiscoverySeq := m } = g j
  none : charged 0 0 = 0
  closed : ∀ t a a' downloaded artifacts, Current t a → ClosedWith downloaded artifacts a a' →
    ψ a = 0 ∧ ψ a' = charged downloaded artifacts
  native : ∀ a : Attempt, a.actualCost.downloadedBytes.getD 0 = 0 →
    a.actualCost.artifactBytes.getD 0 = 0 → ψ a = 0

theorem downloaded_charge : Charge Job.downloadedBytes
    (fun a => a.actualCost.downloadedBytes.getD 0) fun downloaded _ => downloaded where
  core := fun _ => rfl
  submit := fun _ _ _ _ h => h.budget.2.2.1
  lease := fun _ _ _ => rfl
  settle := fun _ _ _ _ _ _ => rfl
  drain := fun _ _ _ _ => rfl
  other := fun _ _ _ _ _ => rfl
  none := rfl
  closed := fun _ _ _ _ _ hcur h => ⟨hcur.free.1, h.downloaded_eq hcur.free.1⟩
  native := fun _ h _ => h

theorem artifacts_charge : Charge Job.artifactBytes
    (fun a => a.actualCost.artifactBytes.getD 0) fun _ artifacts => artifacts where
  core := fun _ => rfl
  submit := fun _ _ _ _ h => h.budget.2.2.2.1
  lease := fun _ _ _ => rfl
  settle := fun _ _ _ _ _ _ => rfl
  drain := fun _ _ _ _ => rfl
  other := fun _ _ _ _ _ => rfl
  none := rfl
  closed := fun _ _ _ _ _ hcur h => ⟨hcur.free.2, h.artifacts_eq hcur.free.2⟩
  native := fun _ _ h => h

/-- Closing the current attempt of a task charges its job. -/
theorem total_closed {g : Job → ℤ} {ψ : Attempt → ℤ} {charged : ℤ → ℤ → ℤ}
    (hg : Charge g ψ charged) {s s' : Store} (hs : WellFormed s) {t : Task} {d a : ℤ}
    (ht : t ∈ s.tasks) (hocc : Occupied t)
    (h : s.attempts.Changed (currentAttempt t) (ClosedWith d a) s'.attempts) (jobId : Uuid) :
    s'.attempts.total (cost jobId ψ) = s.attempts.total (cost jobId ψ) +
      if t.jobId = jobId then charged d a else 0 := by
  obtain ⟨b, hb, hcur⟩ := hs.current t ht hocc
  obtain ⟨b', -, -, hclosed, htotal⟩ := h.total_single (cost jobId ψ) (select_current hb hcur)
  obtain ⟨hzero, hcharged⟩ := hg.closed t b b' d a hcur hclosed
  rw [htotal, cost, cost, hclosed.jobId, hcur.task.2, hzero, hcharged]
  split <;> simp

/-- A new attempt without bytes charges nothing. -/
theorem total_free_insert {g : Job → ℤ} {ψ : Attempt → ℤ} {charged : ℤ → ℤ → ℤ}
    (hg : Charge g ψ charged) {T U : Table Attempt} {a : Attempt} (h : T.insert? a = some U)
    (hcost : a.actualCost = {}) (jobId : Uuid) :
    U.total (cost jobId ψ) = T.total (cost jobId ψ) := by
  rw [Table.total_insert? h, cost, hg.native a (by rw [hcost]; rfl) (by rw [hcost]; rfl), ite_self,
    add_zero]

theorem total_cost_fresh {s s' : Store} {j : Job} {seed : Task} {ψ : Attempt → ℤ}
    (hs : WellFormed s) (h : Submits j seed s s') : s.attempts.total (cost j.id ψ) = 0 := by
  refine Table.total_zero fun a ha => if_neg fun hid => ?_
  obtain ⟨t, ht, -, hjob⟩ := hs.attempt_task a ha
  obtain ⟨k, hk, hkid⟩ := hs.task_job t ht
  have hfresh := Table.insert?_fresh h.jobs k hk
  simp [Clashes, Keyed.clash, Keyed.key, hkid, hjob, hid] at hfresh

/-- Every action keeps the bytes of a job those of its attempts. -/
theorem Charged.preserved {g : Job → ℤ} {ψ : Attempt → ℤ} {charged : ℤ → ℤ → ℤ}
    (hg : Charge g ψ charged) {jobId : Uuid} {s : Store} {e : Event} {s' : Store}
    (ha : Action s e s') (hs : WellFormed s) (h : Charged jobId g ψ s) :
    Charged jobId g ψ s' := by
  -- Most actions move neither the column nor an attempt.
  have hkeep : ∀ {spec : Job → Job} {k : Uuid},
      s.jobs.Changed (fun j => j.id = k) (Job.To spec) s'.jobs → (∀ j, g (spec j) = g j) →
      s'.attempts.total (cost jobId ψ) = s.attempts.total (cost jobId ψ) →
      Charged jobId g ψ s' := by
    intro spec k hjobs hspec htotal j' hj' hid'
    obtain ⟨j, hj, hid, hgj⟩ := job_side hg.core hjobs hj'
    rw [htotal, hgj, ← h j hj (hid.trans hid'), hspec, ite_self]
  cases ha with
  | idle ha =>
      intro j' hj' hid'
      obtain ⟨j, hj, hkey, hto⟩ := ha.jobs.mem_old hj'
      have hid : j.id = jobId := (congrArg Prod.fst hkey).symm.trans hid'
      rw [ha.attempts, ← h j hj hid]
      rcases hto with ⟨-, hto⟩ | ⟨-, rfl⟩
      · exact hto.get g hg.core
      · rfl
  | submit j seed ha =>
      intro j' hj' hid'
      rw [ha.attempts]
      rcases (Table.mem_of_insert? ha.jobs).mp hj' with hj | rfl
      · exact h j' hj hid'
      · subst hid'
        rw [total_cost_fresh hs ha]
        exact hg.submit j' seed s s' ha
  | lease k t token bytes artifacts resumed ha =>
      refine hkeep ha.jobs (hg.lease _ _) ?_
      have hattempts := ha.attempts
      cases resumed with
      | true => rw [hattempts]
      | false =>
          obtain ⟨a, -, -, -, -, hcost, hinsert⟩ := hattempts
          exact total_free_insert hg hinsert hcost jobId
  | settle e t σ downloaded artifacts counted hblocked hfailed hqueued ha =>
      intro j' hj' hid'
      obtain ⟨j, hj, hid, hgj⟩ := job_side hg.core ha.jobs hj'
      rw [total_closed hg hs ha.task.1 (Or.inl ha.task.2) ha.attempts, hgj,
        ← h j hj (hid.trans hid'), hg.settle]
      by_cases hjob : t.jobId = jobId
      · rw [if_pos hjob, if_pos (hid.trans (hid'.trans hjob.symm))]
      · rw [if_neg hjob, if_neg fun hk => hjob (hk.symm.trans (hid.trans hid')), add_zero]
  | drain k σ ha => exact hkeep ha.jobs (hg.drain _ _ _) (by rw [ha.attempts])
  | expire e t σ counted hfailed ha =>
      refine hkeep ha.jobs (hg.drain _ _ _) ?_
      rw [total_closed hg hs ha.task.1 (Or.inr ha.task.2) ha.attempts, hg.none, ite_self, add_zero]
  | flag k now ha =>
      exact hkeep ha.jobs (fun j => hg.other j j.state _ _ _) (by rw [ha.attempts])
  | close k state ha =>
      exact hkeep ha.jobs (fun j => hg.other j state _ _ _) (by rw [ha.attempts])
  | discover e k parent child hrevived ha =>
      exact hkeep ha.jobs (fun j => hg.other j j.state _ _ _) (by rw [ha.attempts])
  | plant child ha =>
      intro j' hj' hid'
      rw [ha.jobs] at hj'
      rw [ha.attempts]
      exact h j' hj' hid'
  | recount k n ha =>
      exact hkeep ha.jobs (fun j => hg.other j j.state _ _ _) (by rw [ha.attempts])
  | reserve e k t a route hunread ha =>
      intro j' hj' hid'
      rw [ha.jobs] at hj'
      rw [total_free_insert hg ha.attempts ha.attempt.2.2.2.2.2.2.2]
      exact h j' hj' hid'
  | consume a released actual ha =>
      intro j' hj' hid'
      rw [ha.jobs] at hj'
      have htotal : s'.attempts.total (cost jobId ψ) = s.attempts.total (cost jobId ψ) := by
        refine ha.attempts.total_eq fun b b' hb hp _ hto => ?_
        obtain rfl := attempt_eq_of_id hb ha.attempt.1 (of_decide_eq_true hp)
        obtain ⟨hbytes, hartifacts⟩ := (hs.provider b hb ha.attempt.2.1).bytes
        rw [cost, cost, hto.1, hg.native b hbytes hartifacts, hg.native b' _ _]
        · rw [hto.2.2.2.2.2.2]
          rfl
        · rw [hto.2.2.2.2.2.2]
          rfl
      rw [htotal]
      exact h j' hj' hid'

theorem Charged.of_blank {jobId : Uuid} {g : Job → ℤ} {ψ : Attempt → ℤ} {s : Store}
    (h : s.blank) : Charged jobId g ψ s := by
  intro j hj
  rw [h.1] at hj
  simp at hj

end Lifecycle

end CrawlTrove
