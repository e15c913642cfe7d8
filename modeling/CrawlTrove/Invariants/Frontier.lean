import CrawlTrove.Invariants.Ledger

/-!
# The frontier of a job

The tasks of a job are numbered without gaps from its seed on (`Numbered`),
and every other task hangs off a page that succeeded, one level deeper and on
the same origin (`Rooted`). Discovering a child appends one number; nothing
else adds tasks to a job that `retry_failures` does not populate.
-/

namespace CrawlTrove

open Relational

namespace Lifecycle

/-! ## What a job keeps -/

/-- The two columns that say how many tasks a job has. -/
def Job.extent (j : Job) : ℤ × ℤ := (j.discoveredCount, j.nextDiscoverySeq)

/-- The tasks of the job stay where they are, and a page that succeeded stays so. -/
structure Kept (jobId : Uuid) (s s' : Store) : Prop where
  old : ∀ t' ∈ s'.tasks, t'.jobId = jobId → ∃ t ∈ s.tasks, Task.place t' = Task.place t ∧
    (t.state = .succeeded → t'.state = .succeeded)
  new : ∀ t ∈ s.tasks, ∃ t' ∈ s'.tasks, Task.place t' = Task.place t ∧
    (t.state = .succeeded → t'.state = .succeeded)

theorem TaskMove.succeeded {s : Store} {e : Event} {t t' : Task} (h : TaskMove s e t t')
    (ht : t.state = .succeeded) : t'.state = .succeeded :=
  (h.terminal (by rw [ht]; rfl)).trans ht

theorem Action.task_stays {s : Store} {e : Event} {s' : Store} (h : Action s e s') :
    ∀ t ∈ s.tasks, ∃ t' ∈ s'.tasks, Task.place t' = Task.place t ∧
      (t.state = .succeeded → t'.state = .succeeded) := by
  intro t ht
  obtain ⟨t', ht', -, hmove⟩ := h.task_new ht
  exact ⟨t', ht', hmove.place, hmove.succeeded⟩

/-- A job no task arrives at keeps its tasks. -/
theorem Action.kept {s : Store} {e : Event} {s' : Store} (h : Action s e s') {jobId : Uuid}
    (harrives : ∀ child, Arrives s e s' child → child.jobId ≠ jobId) : Kept jobId s s' where
  old := by
    intro t' ht' hjob
    rcases h.task_old ht' with ⟨t, ht, -, hmove⟩ | harr
    · exact ⟨t, ht, hmove.place, hmove.succeeded⟩
    · exact absurd hjob (harrives t' harr)
  new := h.task_stays

/-- What an action does to the extent of a job that is not populated. -/
inductive Extends (s s' : Store) (j' : Job) : Prop
  | keep (j : Job) (hj : j ∈ s.jobs) (hterms : Job.terms j' = Job.terms j)
      (hextent : Job.extent j' = Job.extent j) (hkept : Kept j'.id s s')
  | submit (seed : Task) (h : Submits j' seed s s')
  | discover (j : Job) (parent child : Task) (h : Discovers j parent child s s')
      (hterms : Job.terms j' = Job.terms j)
      (hextent : Job.extent j' = (j.discoveredCount + 1, j.nextDiscoverySeq + 1))

/-- A change of job rows that keeps their extents. -/
theorem extends_of_changed {s s' : Store} {p : Job → Bool} {spec : Job → Job}
    (h : s.jobs.Changed p (Job.To spec) s'.jobs)
    (hspec : ∀ j, Job.extent (spec j) = Job.extent j ∧ Job.terms (spec j) = Job.terms j)
    (hkept : ∀ jobId, Kept jobId s s') : ∀ j' ∈ s'.jobs, Extends s s' j' := by
  intro j' hj'
  obtain ⟨j, hj, -, h'⟩ := h.mem_old hj'
  rcases h' with ⟨-, hto⟩ | ⟨-, rfl⟩
  · exact .keep j hj (Job.To.terms hto (hspec j).2)
      ((hto.get Job.extent fun _ => rfl).trans (hspec j).1) (hkept _)
  · exact .keep j' hj rfl rfl (hkept _)

/-- An action without arrivals keeps the tasks of every job. -/
theorem kept_of_changed {s : Store} {e : Event} {s' : Store} (ha : Action s e s')
    (h : s'.tasks.rows.length = s.tasks.rows.length) (jobId : Uuid) : Kept jobId s s' := by
  refine ha.kept fun child harr _ => ?_
  have hrows := (Table.insert?_eq_some.mp harr.insert).2
  simp [hrows] at h

theorem length_of_changed {s s' : Store} {p : Task → Bool} {R : Task → Task → Prop}
    (h : s.tasks.Changed p R s'.tasks) : s'.tasks.rows.length = s.tasks.rows.length := by
  obtain ⟨f, hf, hT, -⟩ := h
  rw [hT]
  simp [Table.update]

theorem Action.extends {s : Store} {e : Event} {s' : Store} (ha : Action s e s')
    {j' : Job} (hj' : j' ∈ s'.jobs) (he : e ≠ .populated j'.id) : Extends s s' j' := by
  have hkept := kept_of_changed ha
  cases ha with
  | idle h =>
      exact extends_of_changed h.jobs (fun _ => ⟨rfl, rfl⟩)
        (hkept (length_of_changed h.tasks)) j' hj'
  | submit j seed h =>
      rcases (Table.mem_of_insert? h.jobs).mp hj' with hj | rfl
      · refine .keep j' hj rfl rfl ((Action.submit j seed h).kept fun child harr hjob => ?_)
        have hfresh := Table.insert?_fresh h.jobs j' hj
        rw [harr.unique h.tasks, h.seed_job] at hjob
        simp [Clashes, Keyed.clash, Keyed.key, hjob] at hfresh
      · exact .submit seed h
  | lease j t token bytes artifacts resumed h =>
      exact extends_of_changed h.jobs (fun _ => ⟨rfl, rfl⟩)
        (hkept (length_of_changed h.tasks)) j' hj'
  | settle e t σ downloaded artifacts counted hblocked hfailed hqueued h =>
      exact extends_of_changed h.jobs (fun _ => ⟨rfl, rfl⟩)
        (hkept (length_of_changed h.tasks)) j' hj'
  | drain jobId σ h =>
      exact extends_of_changed h.jobs (fun _ => ⟨rfl, rfl⟩)
        (hkept (length_of_changed h.tasks)) j' hj'
  | expire e t σ counted hfailed h =>
      exact extends_of_changed h.jobs (fun _ => ⟨rfl, rfl⟩)
        (hkept (length_of_changed h.tasks)) j' hj'
  | flag jobId now h =>
      exact extends_of_changed h.jobs (fun _ => ⟨rfl, rfl⟩) (hkept (by rw [h.tasks])) j' hj'
  | close jobId state h =>
      exact extends_of_changed h.jobs (fun _ => ⟨rfl, rfl⟩) (hkept (by rw [h.tasks])) j' hj'
  | discover e j parent child hrevived h =>
      obtain ⟨k, hk, hkey, h'⟩ := h.jobs.mem_old hj'
      have hkid : k.id = j'.id := (congrArg Prod.fst hkey).symm
      rcases h' with ⟨hp, hto⟩ | ⟨hp, rfl⟩
      · obtain rfl := job_eq_of_id hk h.job.1 ((of_decide_eq_true hp).trans h.job.2.1.symm)
        exact .discover k parent child h (Job.To.terms hto rfl) (hto.get Job.extent fun _ => rfl)
      · refine .keep j' hk rfl rfl ((Action.discover e j parent child hrevived h).kept
          fun c harr hjob => ?_)
        rw [harr.unique h.tasks, h.place.1] at hjob
        simp [hjob] at hp
  | plant child h =>
      rw [h.jobs] at hj'
      refine .keep j' hj' rfl rfl ((Action.plant child h).kept fun c harr hjob => he ?_)
      rw [← hjob, harr.unique h.tasks]
  | recount jobId n h =>
      obtain ⟨j, hj, hkey, h'⟩ := h.jobs.mem_old hj'
      have hkid : j.id = j'.id := (congrArg Prod.fst hkey).symm
      rcases h' with ⟨hp, hto⟩ | ⟨-, rfl⟩
      · rw [← hkid, of_decide_eq_true hp] at he
        exact absurd rfl he
      · exact .keep j' hj rfl rfl (hkept (by rw [h.tasks]) _)
  | reserve e j t a route hunread h =>
      rw [h.jobs] at hj'
      exact .keep j' hj' rfl rfl (hkept (by rw [h.tasks]) _)
  | consume a released actual h =>
      rw [h.jobs] at hj'
      exact .keep j' hj' rfl rfl (hkept (by rw [h.tasks]) _)

/-! ## Numbering -/

/-- The tasks of the job carry the numbers below `nextDiscoverySeq`, each once. -/
structure Numbered (s : Store) (j : Job) : Prop where
  same : j.discoveredCount = j.nextDiscoverySeq
  start : 1 ≤ j.nextDiscoverySeq
  range : ∀ t ∈ s.tasks, t.jobId = j.id →
    0 ≤ t.discoverySeq ∧ t.discoverySeq < j.nextDiscoverySeq
  unique : ∀ t ∈ s.tasks, ∀ u ∈ s.tasks, t.jobId = j.id → u.jobId = j.id →
    t.discoverySeq = u.discoverySeq → t = u
  covers : ∀ k, 0 ≤ k → k < j.nextDiscoverySeq →
    ∃ t ∈ s.tasks, t.jobId = j.id ∧ t.discoverySeq = k

theorem place_eq {t t' : Task} (h : Task.place t' = Task.place t) :
    t'.id = t.id ∧ t'.jobId = t.jobId ∧ t'.originKey = t.originKey ∧ t'.depth = t.depth ∧
      t'.discoverySeq = t.discoverySeq ∧
      t'.discoveredFromTaskId = t.discoveredFromTaskId := by
  simp only [Task.place, Prod.mk.injEq] at h
  exact ⟨h.1, h.2.1, h.2.2.2.1, h.2.2.2.2.1, h.2.2.2.2.2.1, h.2.2.2.2.2.2⟩

theorem terms_id {j j' : Job} (h : Job.terms j' = Job.terms j) : j'.id = j.id :=
  congrArg (fun p => p.1) h

theorem Numbered.kept {s s' : Store} {j j' : Job} (h : Numbered s j)
    (hid : j'.id = j.id) (hextent : Job.extent j' = Job.extent j)
    (hkept : Kept j'.id s s') : Numbered s' j' := by
  simp only [Job.extent, Prod.mk.injEq] at hextent
  obtain ⟨hdisc, hnext⟩ := hextent
  refine ⟨by rw [hdisc, hnext]; exact h.same, by rw [hnext]; exact h.start, ?_, ?_, ?_⟩
  · intro t' ht' hjob
    obtain ⟨t, ht, hplace, -⟩ := hkept.old t' ht' hjob
    obtain ⟨-, hjob', -, -, hseq, -⟩ := place_eq hplace
    rw [hseq, hnext]
    exact h.range t ht (hjob'.symm.trans (hjob.trans hid))
  · intro t' ht' u' hu' htjob hujob hseq
    obtain ⟨t, ht, htplace, -⟩ := hkept.old t' ht' htjob
    obtain ⟨u, hu, huplace, -⟩ := hkept.old u' hu' hujob
    obtain ⟨htid, htjob', -, -, htseq, -⟩ := place_eq htplace
    obtain ⟨huid, hujob', -, -, huseq, -⟩ := place_eq huplace
    have htu : t = u := h.unique t ht u hu (htjob'.symm.trans (htjob.trans hid))
      (hujob'.symm.trans (hujob.trans hid)) (by rw [← htseq, ← huseq, hseq])
    exact task_eq_of_id ht' hu' (by rw [htid, huid, htu])
  · intro k hk hlt
    obtain ⟨t, ht, hjob, hseq⟩ := h.covers k hk (by rwa [hnext] at hlt)
    obtain ⟨t', ht', hplace, -⟩ := hkept.new t ht
    obtain ⟨-, hjob', -, -, hseq', -⟩ := place_eq hplace
    exact ⟨t', ht', by rw [hjob', hjob, hid], by rw [hseq', hseq]⟩

/-- No task is on a job before it is submitted. -/
theorem Submits.task_job {s s' : Store} {j : Job} {seed : Task} (hs : WellFormed s)
    (h : Submits j seed s s') {t : Task} (ht : t ∈ s'.tasks) (hjob : t.jobId = j.id) :
    t = seed := by
  rcases (Table.mem_of_insert? h.tasks).mp ht with ht | rfl
  · obtain ⟨k, hk, hkid⟩ := hs.task_job t ht
    have hfresh := Table.insert?_fresh h.jobs k hk
    simp [Clashes, Keyed.clash, Keyed.key, hkid, hjob] at hfresh
  · rfl

theorem Numbered.submitted {s s' : Store} {j : Job} {seed : Task} (hs : WellFormed s)
    (h : Submits j seed s s') : Numbered s' j := by
  have hnext : j.nextDiscoverySeq = 1 := h.counters.2.1
  refine ⟨by rw [h.counters.1, hnext], by rw [hnext], ?_, ?_, ?_⟩
  · intro t ht hjob
    rw [h.task_job hs ht hjob, h.seed_place.1, hnext]
    omega
  · intro t ht u hu htjob hujob _
    rw [h.task_job hs ht htjob, h.task_job hs hu hujob]
  · intro k hk hlt
    have hzero : k = 0 := by omega
    exact ⟨seed, (Table.mem_of_insert? h.tasks).mpr (Or.inr rfl), h.seed_job,
      by rw [h.seed_place.1, hzero]⟩

/-- A row that takes the next number. -/
theorem Numbered.inserted {s s' : Store} {j j' : Job} {child : Task} (h : Numbered s j)
    (hid : j'.id = j.id) (hextent : Job.extent j' = (j.discoveredCount + 1, j.nextDiscoverySeq + 1))
    (htasks : s.tasks.insert? child = some s'.tasks) (hjob : child.jobId = j.id)
    (hseq : child.discoverySeq = j.nextDiscoverySeq) : Numbered s' j' := by
  simp only [Job.extent, Prod.mk.injEq] at hextent
  obtain ⟨hdisc, hnext⟩ := hextent
  have hsame := h.same
  have hstart := h.start
  have hmem (t : Task) : t ∈ s'.tasks ↔ t ∈ s.tasks ∨ t = child := Table.mem_of_insert? htasks
  refine ⟨by omega, by omega, ?_, ?_, ?_⟩
  · intro t ht htjob
    rcases (hmem t).mp ht with ht | rfl
    · have := h.range t ht (htjob.trans hid)
      omega
    · omega
  · intro t ht u hu htjob hujob htu
    rcases (hmem t).mp ht with ht | rfl
    · rcases (hmem u).mp hu with hu | rfl
      · exact h.unique t ht u hu (htjob.trans hid) (hujob.trans hid) htu
      · have := h.range t ht (htjob.trans hid)
        omega
    · rcases (hmem u).mp hu with hu | rfl
      · have := h.range u hu (hujob.trans hid)
        omega
      · rfl
  · intro k hk hlt
    by_cases hlast : k = j.nextDiscoverySeq
    · exact ⟨child, (hmem child).mpr (Or.inr rfl), hjob.trans hid.symm, hseq.trans hlast.symm⟩
    · obtain ⟨t, ht, htjob, htseq⟩ := h.covers k hk (by omega)
      exact ⟨t, (hmem t).mpr (Or.inl ht), htjob.trans hid.symm, htseq⟩

/-- As a list: the numbers of the tasks are those below `nextDiscoverySeq`. -/
theorem Numbered.perm {s : Store} {j : Job} (h : Numbered s j) :
    ((s.tasks.select fun t => t.jobId = j.id).map Task.discoverySeq).Perm
      ((List.range j.nextDiscoverySeq.toNat).map Nat.cast) := by
  have hmem (t : Task) : (t ∈ s.tasks.select fun t => t.jobId = j.id) ↔
      t ∈ s.tasks ∧ t.jobId = j.id := by
    simp [Table.mem_select]
  have hleft : ((s.tasks.select fun t => t.jobId = j.id).map Task.discoverySeq).Nodup := by
    refine List.Nodup.map_on (fun t ht u hu hseq => ?_) (Table.nodup_select _ _)
    obtain ⟨ht, htjob⟩ := (hmem t).mp ht
    obtain ⟨hu, hujob⟩ := (hmem u).mp hu
    exact h.unique t ht u hu htjob hujob hseq
  have hright : ((List.range j.nextDiscoverySeq.toNat).map (Nat.cast : ℕ → ℤ)).Nodup :=
    List.nodup_range.map Nat.cast_injective
  refine (List.perm_ext_iff_of_nodup hleft hright).mpr fun k => ?_
  simp only [List.mem_map, List.mem_range]
  constructor
  · rintro ⟨t, ht, rfl⟩
    obtain ⟨ht, hjob⟩ := (hmem t).mp ht
    have hrange := h.range t ht hjob
    exact ⟨t.discoverySeq.toNat, by omega, by omega⟩
  · rintro ⟨n, hn, rfl⟩
    obtain ⟨t, ht, hjob, hseq⟩ := h.covers n (by omega) (by omega)
    exact ⟨t, (hmem t).mpr ⟨ht, hjob⟩, hseq⟩

theorem Numbered.count_eq {s : Store} {j : Job} (h : Numbered s j) :
    s.tasks.count (fun t => t.jobId = j.id) = j.discoveredCount := by
  have hlength := h.perm.length_eq
  simp only [List.length_map, List.length_range] at hlength
  have hstart := h.start
  rw [Table.count, hlength, h.same]
  omega

theorem Numbered.nextSequence_eq {s : Store} {j : Job} (h : Numbered s j) :
    nextSequence s j.id = j.nextDiscoverySeq := by
  have hstart := h.start
  have hmem (k : ℤ) : k ∈ ((s.tasks.select fun t => t.jobId = j.id).map Task.discoverySeq) ↔
      0 ≤ k ∧ k < j.nextDiscoverySeq := by
    rw [h.perm.mem_iff]
    simp only [List.mem_map, List.mem_range]
    constructor
    · rintro ⟨n, hn, rfl⟩
      omega
    · rintro ⟨hk, hlt⟩
      exact ⟨k.toNat, by omega, by omega⟩
  have hmax : ((s.tasks.select fun t => t.jobId = j.id).map Task.discoverySeq).max? =
      some (j.nextDiscoverySeq - 1) := by
    refine List.max?_eq_some_iff.mpr ⟨(hmem _).mpr ⟨by omega, by omega⟩, fun k hk => ?_⟩
    have := ((hmem k).mp hk).2
    omega
  unfold nextSequence
  split
  · rename_i hnil
    rw [hnil] at hmax
    cases hmax
  · rename_i seq seqs hcons
    rw [hcons, List.max?_cons', Option.some.injEq] at hmax
    omega

/-! ## Parents -/

/-- Every task but the seed hangs off a page that succeeded before it. -/
structure Rooted (s : Store) (j : Job) : Prop where
  pages : j.nextDiscoverySeq ≤ j.maxPages
  seed : ∀ t ∈ s.tasks, t.jobId = j.id → t.discoveredFromTaskId = none →
    t.discoverySeq = 0 ∧ t.depth = 0
  parent : ∀ t ∈ s.tasks, t.jobId = j.id → ∀ id, t.discoveredFromTaskId = some id →
    ∃ u ∈ s.tasks, u.id = id ∧ u.jobId = j.id ∧ u.state = .succeeded ∧
      u.discoverySeq < t.discoverySeq ∧ t.depth = u.depth + 1 ∧ t.depth ≤ j.config.maxDepth ∧
      t.originKey = u.originKey

theorem terms_eq {j j' : Job} (h : Job.terms j' = Job.terms j) :
    j'.id = j.id ∧ j'.config = j.config ∧ j'.maxPages = j.maxPages := by
  simp only [Job.terms, Prod.mk.injEq] at h
  exact ⟨h.1, h.2.1, h.2.2.1⟩

theorem Rooted.kept {s s' : Store} {j j' : Job} (h : Rooted s j)
    (hterms : Job.terms j' = Job.terms j) (hextent : Job.extent j' = Job.extent j)
    (hkept : Kept j'.id s s') : Rooted s' j' := by
  obtain ⟨hid, hconfig, hpages⟩ := terms_eq hterms
  simp only [Job.extent, Prod.mk.injEq] at hextent
  refine ⟨by rw [hextent.2, hpages]; exact h.pages, ?_, ?_⟩
  · intro t' ht' hjob hseed
    obtain ⟨t, ht, hplace, -⟩ := hkept.old t' ht' hjob
    obtain ⟨-, hjob', -, hdepth, hseq, hfrom⟩ := place_eq hplace
    rw [hseq, hdepth]
    exact h.seed t ht (hjob'.symm.trans (hjob.trans hid)) (hfrom.symm.trans hseed)
  · intro t' ht' hjob id hfrom'
    obtain ⟨t, ht, hplace, -⟩ := hkept.old t' ht' hjob
    obtain ⟨-, hjob', horigin, hdepth, hseq, hfrom⟩ := place_eq hplace
    obtain ⟨u, hu, huid, hujob, hdone, hlt, hnext, hmax, hsame⟩ :=
      h.parent t ht (hjob'.symm.trans (hjob.trans hid)) id (hfrom.symm.trans hfrom')
    obtain ⟨u', hu', hplace', hstays⟩ := hkept.new u hu
    obtain ⟨huid', hujob', huorigin, hudepth, huseq, -⟩ := place_eq hplace'
    refine ⟨u', hu', huid'.trans huid, by rw [hujob', hujob, hid], hstays hdone,
      by rw [huseq, hseq]; exact hlt, by rw [hdepth, hudepth]; exact hnext,
      by rw [hdepth, hconfig]; exact hmax, by rw [horigin, huorigin]; exact hsame⟩

theorem Rooted.submitted {s s' : Store} {j : Job} {seed : Task} (hs : WellFormed s)
    (h : Submits j seed s s') : Rooted s' j := by
  refine ⟨by rw [h.counters.2.1]; exact h.pages.1, ?_, ?_⟩
  · intro t ht hjob _
    rw [h.task_job hs ht hjob]
    exact ⟨h.seed_place.1, h.seed_place.2.1⟩
  · intro t ht hjob id hfrom
    rw [h.task_job hs ht hjob, h.seed_place.2.2] at hfrom
    cases hfrom

theorem Rooted.discovered {s s' : Store} {j j' : Job} {parent child : Task} (h : Rooted s j)
    (hn : Numbered s j) (hd : Discovers j parent child s s')
    (hterms : Job.terms j' = Job.terms j)
    (hextent : Job.extent j' = (j.discoveredCount + 1, j.nextDiscoverySeq + 1)) :
    Rooted s' j' := by
  obtain ⟨hid, hconfig, hpages⟩ := terms_eq hterms
  simp only [Job.extent, Prod.mk.injEq] at hextent
  obtain ⟨hchild, hseq, hdepth, hmax, horigin, hfrom⟩ := hd.place
  have hparent : parent.jobId = j.id := hd.job.2.1.symm
  have hmem (t : Task) : t ∈ s'.tasks ↔ t ∈ s.tasks ∨ t = child := Table.mem_of_insert? hd.tasks
  refine ⟨?_, ?_, ?_⟩
  · have hroom := hd.room
    have hsame := hn.same
    omega
  · intro t ht hjob hseed
    rcases (hmem t).mp ht with ht | rfl
    · exact h.seed t ht (hjob.trans hid) hseed
    · rw [hfrom] at hseed
      cases hseed
  · intro t ht hjob id hfrom'
    rcases (hmem t).mp ht with ht | rfl
    · obtain ⟨u, hu, huid, hujob, hrest⟩ := h.parent t ht (hjob.trans hid) id hfrom'
      refine ⟨u, (hmem u).mpr (Or.inl hu), huid, hujob.trans hid.symm, ?_⟩
      rw [hconfig]
      exact hrest
    · obtain rfl : parent.id = id := by
        rw [hfrom] at hfrom'
        exact Option.some.inj hfrom'
      have hrange := (hn.range parent hd.parent_ok.1 hparent).2
      exact ⟨parent, (hmem parent).mpr (Or.inl hd.parent_ok.1), rfl, hparent.trans hid.symm,
        hd.parent_ok.2, by rw [hseq]; exact hrange, hdepth, by rw [hconfig]; exact hmax, horigin⟩

/-! ## Runs -/

/-- The frontier of the job: numbered without gaps, and rooted in its seed. -/
def Grown (jobId : Uuid) (s : Store) : Prop :=
  ∀ j ∈ s.jobs, j.id = jobId → Numbered s j ∧ Rooted s j

theorem Grown.preserved {jobId : Uuid} {s : Store} {e : Event} {s' : Store}
    (he : e ≠ .populated jobId) (ha : Action s e s') (hs : WellFormed s) (h : Grown jobId s) :
    Grown jobId s' := by
  intro j' hj' hid'
  cases ha.extends hj' (by rwa [hid']) with
  | keep j hj hterms hextent hkept =>
      have hid := terms_id hterms
      obtain ⟨hn, hr⟩ := h j hj (hid.symm.trans hid')
      exact ⟨hn.kept hid hextent hkept, hr.kept hterms hextent hkept⟩
  | submit seed h => exact ⟨.submitted hs h, .submitted hs h⟩
  | discover j parent child hd hterms hextent =>
      have hid := terms_id hterms
      obtain ⟨hn, hr⟩ := h j hd.job.1 (hid.symm.trans hid')
      exact ⟨hn.inserted hid hextent hd.tasks (hd.place.1.trans hd.job.2.1.symm) hd.place.2.1,
        hr.discovered hn hd hterms hextent⟩

theorem Grown.of_blank {jobId : Uuid} {s : Store} (h : s.blank) : Grown jobId s := by
  intro j hj
  rw [h.1] at hj
  simp at hj

/-- The first task has no parent, and every task lies on its origin. -/
theorem Rooted.origin {s : Store} {j : Job} (hr : Rooted s j) (hn : Numbered s j) :
    ∃ seed ∈ s.tasks, seed.jobId = j.id ∧ seed.discoverySeq = 0 ∧
      ∀ t ∈ s.tasks, t.jobId = j.id → t.originKey = seed.originKey := by
  obtain ⟨seed, hseed, hjob, hzero⟩ := hn.covers 0 (le_refl 0) (by have := hn.start; omega)
  refine ⟨seed, hseed, hjob, hzero, ?_⟩
  -- Along the parents, whose numbers decrease down to the seed's.
  have hall : ∀ n : ℕ, ∀ t ∈ s.tasks, t.jobId = j.id → t.discoverySeq = n →
      t.originKey = seed.originKey := by
    intro n
    induction n using Nat.strong_induction_on with
    | _ n ih =>
        intro t ht htjob hseq
        cases hfrom : t.discoveredFromTaskId with
        | none =>
            have htzero := (hr.seed t ht htjob hfrom).1
            rw [hn.unique t ht seed hseed htjob hjob (by rw [htzero, hzero])]
        | some id =>
            obtain ⟨u, hu, -, hujob, -, hlt, -, -, horigin⟩ := hr.parent t ht htjob id hfrom
            have hu0 := (hn.range u hu hujob).1
            rw [horigin]
            exact ih u.discoverySeq.toNat (by omega) u hu hujob (by omega)
  intro t ht htjob
  have ht0 := (hn.range t ht htjob).1
  exact hall t.discoverySeq.toNat t ht htjob (by omega)

end Lifecycle

end CrawlTrove
