import CrawlTrove.Invariants.Frontier

/-!
# What a completed job has done

The finalizer calls a drained job completed when no task failed and one
succeeded or was denied by robots. A job that grew beyond its seed has a seed
that succeeded, so a completed job without a succeeded seed is one whose only
task, the seed, was denied by robots (`completed_honest`).
-/

namespace CrawlTrove

open Relational Transaction

namespace Lifecycle

/-! ## The verdict -/

theorem tally_eq_zero {s : Store} {jobId : Uuid} {p : TaskState → Bool} :
    tally s jobId p = 0 ↔ ∀ t ∈ s.tasks, t.jobId = jobId → p t.state = false := by
  simp only [tally, Table.count, Int.natCast_eq_zero, List.length_eq_zero_iff, Table.select,
    List.filter_eq_nil_iff, Bool.and_eq_true, decide_eq_true_eq, not_and, Bool.not_eq_true]
  rfl

theorem finalState_completed {cancelled expired : Bool} {succeeded blocked failed : ℤ}
    (h : finalState cancelled expired succeeded blocked failed = .completed) :
    cancelled = false ∧ failed = 0 ∧ (succeeded ≠ 0 ∨ blocked ≠ 0) := by
  unfold finalState at h
  split_ifs at h with hcancelled hexpired hdone hpartial
  refine ⟨by simpa using hcancelled, ?_, ?_⟩
  · by_contra hfailed
    rcases hdone with hsucceeded | ⟨-, hnone⟩
    · exact hpartial ⟨hsucceeded, hfailed⟩
    · exact hfailed hnone
  · rcases hdone with hsucceeded | ⟨hblocked, -⟩
    · exact Or.inl hsucceeded
    · exact Or.inr hblocked

/-- A task with a parent shows that the seed succeeded. -/
theorem Rooted.seed_succeeded {s : Store} {j : Job} (hr : Rooted s j) (hn : Numbered s j)
    {seed : Task} (hseed : seed ∈ s.tasks) (hjob : seed.jobId = j.id)
    (hroot : seed.discoveredFromTaskId = none) {t : Task} (ht : t ∈ s.tasks)
    (htjob : t.jobId = j.id) (hne : t ≠ seed) : seed.state = .succeeded := by
  have hzero := (hr.seed seed hseed hjob hroot).1
  -- The parents of `t` are numbered downwards; the last of them is the seed.
  have hall : ∀ n : ℕ, ∀ t ∈ s.tasks, t.jobId = j.id → t.discoverySeq = n → t ≠ seed →
      seed.state = .succeeded := by
    intro n
    induction n using Nat.strong_induction_on with
    | _ n ih =>
        intro t ht htjob hseq hne
        cases hfrom : t.discoveredFromTaskId with
        | none =>
            have htzero := (hr.seed t ht htjob hfrom).1
            exact absurd (hn.unique t ht seed hseed htjob hjob (by rw [htzero, hzero])) hne
        | some id =>
            obtain ⟨u, hu, -, hujob, hdone, hlt, -⟩ := hr.parent t ht htjob id hfrom
            by_cases hroot : u = seed
            · rw [← hroot]
              exact hdone
            · have hrange := (hn.range u hu hujob).1
              exact ih u.discoverySeq.toNat (by omega) u hu hujob (by omega) hroot
  have hrange := (hn.range t ht htjob).1
  exact hall t.discoverySeq.toNat t ht htjob (by omega) hne

/-! ## The invariant -/

/-- A job that ended uncancelled has ended tasks only, and a completed one has
no failed task and a seed that succeeded or was denied by robots. -/
structure Honest (jobId : Uuid) (s : Store) : Prop where
  rest : ∀ j ∈ s.jobs, j.id = jobId → j.state.terminal = true → j.cancelRequestedAt = none →
    ∀ t ∈ s.tasks, t.jobId = jobId → t.state.terminal = true
  completed : ∀ j ∈ s.jobs, j.id = jobId → j.state = .completed →
    j.cancelRequestedAt = none ∧ ∀ t ∈ s.tasks, t.jobId = jobId → t.state.failed = false ∧
      (t.discoveredFromTaskId = none → t.state = .succeeded ∨ t.state = .blockedRobots)

/-- The labels under which a job that ended keeps its tasks. -/
def Undisturbed (jobId : Uuid) (e : Event) : Prop := e ≠ .populated jobId ∧ e ≠ .revived jobId

/-- The rows of a job that ended uncancelled stay as they are. -/
theorem Honest.task {jobId : Uuid} {s : Store} {e : Event} {s' : Store} (h : Honest jobId s)
    (he : Undisturbed jobId e) (ha : Action s e s') {j : Job} (hj : j ∈ s.jobs) (hid : j.id = jobId)
    (hend : j.state.terminal = true) (hcancel : j.cancelRequestedAt = none) {t' : Task}
    (ht' : t' ∈ s'.tasks) (hjob : t'.jobId = jobId) :
    ∃ t ∈ s.tasks, t.jobId = jobId ∧ t'.state = t.state ∧
      t'.discoveredFromTaskId = t.discoveredFromTaskId := by
  rcases ha.task_old ht' with ⟨t, ht, -, hmove⟩ | harr
  · have htjob : t.jobId = jobId := hmove.jobId.symm.trans hjob
    exact ⟨t, ht, htjob, hmove.terminal (h.rest j hj hid hend hcancel t ht htjob),
      (place_eq hmove.place).2.2.2.2.2⟩
  · cases harr with
    | seed k hk =>
        have hfresh := Table.insert?_fresh hk.jobs j hj
        have hkid : k.id = jobId := hk.seed_job.symm.trans hjob
        simp [Clashes, Keyed.clash, Keyed.key, hid, hkid] at hfresh
    | page k parent hk hrevived =>
        have hkid : k.id = jobId := hk.job.2.1.trans (hk.place.1.symm.trans hjob)
        obtain rfl := job_eq_of_id hk.job.1 hj (hkid.trans hid.symm)
        exact absurd (hkid ▸ hrevived hend) he.2
    | plant hk hpopulated => exact absurd (hjob ▸ hpopulated) he.1

/-- The finalizer's verdict over tasks that have ended. -/
theorem honest_verdict {jobId : Uuid} {s : Store} (hg : Grown jobId s) {j : Job}
    (hj : j ∈ s.jobs) (hid : j.id = jobId) {cancelled expired : Bool}
    (h : finalState cancelled expired (tally s j.id (· = .succeeded))
      (tally s j.id (· = .blockedRobots)) (tally s j.id TaskState.failed) = .completed) :
    ∀ t ∈ s.tasks, t.jobId = jobId → t.state.failed = false ∧
      (t.discoveredFromTaskId = none → t.state = .succeeded ∨ t.state = .blockedRobots) := by
  subst hid
  obtain ⟨-, hfailed, hsome⟩ := finalState_completed h
  obtain ⟨hn, hr⟩ := hg j hj rfl
  intro t ht hjob
  have htfailed := tally_eq_zero.mp hfailed t ht hjob
  refine ⟨htfailed, fun hroot => ?_⟩
  -- One task succeeded or was denied; it is the seed, or the seed succeeded.
  have hdone : ∃ u ∈ s.tasks, u.jobId = j.id ∧ (u.state = .succeeded ∨ u.state = .blockedRobots) := by
    by_contra hnone
    push Not at hnone
    rcases hsome with hs | hb
    · exact hs (tally_eq_zero.mpr fun u hu hujob => by simp [(hnone u hu hujob).1])
    · exact hb (tally_eq_zero.mpr fun u hu hujob => by simp [(hnone u hu hujob).2])
  obtain ⟨u, hu, hujob, hustate⟩ := hdone
  by_cases hsame : u = t
  · rw [← hsame]
    exact hustate
  · exact Or.inl (hr.seed_succeeded hn ht hjob hroot hu hujob hsame)

theorem Honest.preserved {jobId : Uuid} {s : Store} {e : Event} {s' : Store}
    (he : Undisturbed jobId e) (ha : Action s e s') (hg : Grown jobId s) (h : Honest jobId s) :
    Honest jobId s' := by
  have hrow : ∀ j' ∈ s'.jobs, j'.id = jobId →
      (j'.state.terminal = true → j'.cancelRequestedAt = none →
        ∀ t ∈ s'.tasks, t.jobId = jobId → t.state.terminal = true) ∧
      (j'.state = .completed → j'.cancelRequestedAt = none ∧
        ∀ t ∈ s'.tasks, t.jobId = jobId → t.state.failed = false ∧
          (t.discoveredFromTaskId = none → t.state = .succeeded ∨ t.state = .blockedRobots)) := by
    intro j' hj' hid'
    rcases ha.job_old hj' with ⟨j, hj, hterms, hmove⟩ | ⟨seed, hk⟩
    · have hid : j.id = jobId := (terms_id hterms).symm.trans hid'
      cases hmove with
      | keep hstatus =>
          obtain ⟨hflag, hstate⟩ := status_eq hstatus
          rw [hflag, hstate]
          refine ⟨fun hend hcancel t' ht' hjob => ?_, fun hcompleted => ?_⟩
          · obtain ⟨t, ht, htjob, htstate, -⟩ := h.task he ha hj hid hend hcancel ht' hjob
            rw [htstate]
            exact h.rest j hj hid hend hcancel t ht htjob
          · have hend : j.state.terminal = true := by
              rw [← hstate, hcompleted]
              rfl
            have hjcompleted : j.state = .completed :=
              (status_terminal hstatus hend).symm.trans hcompleted
            obtain ⟨hcancel, hrows⟩ := h.completed j hj hid hjcompleted
            refine ⟨hcancel, fun t' ht' hjob => ?_⟩
            obtain ⟨t, ht, htjob, htstate, htfrom⟩ := h.task he ha hj hid hend hcancel ht' hjob
            rw [htstate, htfrom]
            exact hrows t ht htjob
      | flag now idle active tasks hto =>
          have hstate : j'.state.terminal = j.state.terminal :=
            hto.get (fun j => j.state.terminal) Job.core_terminal
          rw [active] at hstate
          refine ⟨fun hend => ?_, fun hcompleted => ?_⟩
          · rw [hstate] at hend
            cases hend
          · rw [hcompleted] at hstate
            cases hstate
      | close state verdict tasks hto =>
          obtain ⟨-, hstate⟩ := verdict.closed hto
          have hflag : j'.cancelRequestedAt = j.cancelRequestedAt :=
            hto.get Job.cancelRequestedAt fun _ => rfl
          rw [hstate, hflag, tasks]
          rcases verdict with ⟨rfl, hcancel, -⟩ | ⟨-, ⟨expired, rfl⟩, hend⟩
          · refine ⟨fun _ hnone => ?_, fun hcompleted => by cases hcompleted⟩
            rw [hnone] at hcancel
            cases hcancel
          · refine ⟨fun _ _ t ht hjob => hend t ht (hjob.trans hid.symm), fun hcompleted => ?_⟩
            obtain ⟨hcancel, -⟩ := finalState_completed hcompleted
            exact ⟨by simpa using hcancel, honest_verdict hg hj hid hcompleted⟩
    · obtain ⟨hstate, -⟩ := hk.fresh
      refine ⟨fun hend => ?_, fun hcompleted => ?_⟩
      · rw [hstate] at hend
        cases hend
      · rw [hcompleted] at hstate
        cases hstate
  exact ⟨fun j hj hid => (hrow j hj hid).1, fun j hj hid => (hrow j hj hid).2⟩

theorem Honest.of_blank {jobId : Uuid} {s : Store} (h : s.blank) : Honest jobId s := by
  have hnone : ∀ j : Job, j ∉ s.jobs := fun j hj => by
    rw [h.1] at hj
    simp at hj
  exact ⟨fun j hj => absurd hj (hnone j), fun j hj => absurd hj (hnone j)⟩

theorem honest_of_run {url : UrlIdentity} {jobId : Uuid} {s₀ : Store} (h₀ : s₀.blank)
    {requests : List Request}
    (hP : StepsMeet (step url) (fun r _ => ¬Request.Populates r jobId) s₀ requests) :
    Grown jobId (run url s₀ requests) ∧ Honest jobId (run url s₀ requests) := by
  have hblank : WellFormed s₀ ∧ Grown jobId s₀ ∧ Honest jobId s₀ :=
    ⟨.of_blank h₀, .of_blank h₀, .of_blank h₀⟩
  have hinv := run_preserves (I := fun s => WellFormed s ∧ Grown jobId s ∧ Honest jobId s)
    (E := Undisturbed jobId) (fun r s e hr hs he => ⟨?_, ?_⟩)
    (fun s e s' he ha hs =>
      ⟨hs.1.preserved ha, hs.2.1.preserved he.1 ha hs.1, hs.2.2.preserved he ha hs.2.1⟩) hP hblank
  · exact hinv.2
  · rintro rfl
    exact hr he
  · rintro rfl
    obtain ⟨f, hf, hend, hjob⟩ := he
    have hterminal := hs.2.2.rest f.job hf.job_mem (hf.job_id.trans hjob) hend hf.uncancelled
      f.task hf.mem hjob
    rw [hf.leased] at hterminal
    cases hterminal

/-! ## Denied seeds -/

/-- The seed of the job was not denied by robots. -/
def Admitted (jobId : Uuid) (s : Store) : Prop :=
  ∀ t ∈ s.tasks, t.jobId = jobId → t.discoveredFromTaskId = none → t.state ≠ .blockedRobots

theorem Admitted.preserved {jobId : Uuid} {s : Store} {e : Event} {s' : Store}
    (he : ∀ t counted, t.jobId = jobId → t.discoveredFromTaskId = none → e ≠ .blocked t counted)
    (ha : Action s e s') (h : Admitted jobId s) : Admitted jobId s' := by
  intro t' ht' hjob hroot
  rcases ha.task_old ht' with ⟨t, ht, -, hmove⟩ | harr
  · have htjob : t.jobId = jobId := hmove.jobId.symm.trans hjob
    have htroot : t.discoveredFromTaskId = none :=
      (place_eq hmove.place).2.2.2.2.2.symm.trans hroot
    cases hmove with
    | keep hto =>
        rw [show t'.state = t.state from hto.get Task.state fun _ => rfl]
        exact h t ht htjob htroot
    | lease token bytes artifacts resumed active room state hto =>
        rw [show t'.state = .leased from hto.get Task.state fun _ => rfl]
        decide
    | settle σ leased ends hblocked hqueued hto =>
        rw [show t'.state = σ from hto.get Task.state fun _ => rfl]
        intro hσ
        obtain ⟨counted, heq⟩ := hblocked hσ
        exact he t counted htjob htroot heq
    | drain σ queued ends hto =>
        rw [drained_state hto]
        rcases ends with rfl | rfl <;> decide
  · rw [harr.unleased.1]
    decide

/-- No step of the core or of a remote worker denies the seed. -/
def Request.AdmitsSeed (jobId : Uuid) (r : Request) (s : Store) : Prop :=
  ∀ t, t.jobId = jobId → t.discoveredFromTaskId = none →
    ¬Request.BlocksAtCore r s t ∧ ¬Request.BlocksRemotely r s t

theorem admitted_of_run {url : UrlIdentity} {jobId : Uuid} {s₀ : Store} (h₀ : s₀.blank)
    {requests : List Request} (hP : StepsMeet (step url) (Request.AdmitsSeed jobId) s₀ requests) :
    Admitted jobId (run url s₀ requests) := by
  refine run_preserves (I := Admitted jobId)
    (E := fun e => ∀ t counted, t.jobId = jobId → t.discoveredFromTaskId = none →
      e ≠ .blocked t counted) (fun r s e hr _ he => ?_)
    (fun s e s' he ha hs => hs.preserved he ha) hP ?_
  · rintro t counted hjob hroot rfl
    obtain ⟨hcore, hremote⟩ := hr t hjob hroot
    cases counted with
    | false => exact hcore he
    | true => exact hremote he
  · intro t ht
    rw [h₀.2.1] at ht
    simp at ht

/-! ## Completed jobs -/

/-- A job of `submit_job` that is completed has a seed that succeeded and no
failed task exactly if the seed was not denied by robots; in a run whose steps
deny no seed of the job this holds of every completed state. -/
theorem completed_honest (url : UrlIdentity) (jobId : Uuid) (s₀ : Store) (h₀ : s₀.blank)
    (requests : List Request)
    (hP : StepsMeet (step url) (fun r _ => ¬Request.Populates r jobId) s₀ requests) (j : Job)
    (hj : j ∈ (run url s₀ requests).jobs) (hid : j.id = jobId) (hcompleted : j.state = .completed) :
    let s := run url s₀ requests
    ∃ seed ∈ s.tasks, seed.jobId = jobId ∧ seed.discoveredFromTaskId = none ∧
      ((seed.state = .succeeded ∧ ∀ t ∈ s.tasks, t.jobId = jobId → t.state.failed = false) ↔
        seed.state ≠ .blockedRobots) ∧
      (StepsMeet (step url) (Request.AdmitsSeed jobId) s₀ requests →
        seed.state = .succeeded ∧ ∀ t ∈ s.tasks, t.jobId = jobId → t.state.failed = false) := by
  intro s
  subst hid
  obtain ⟨hg, hh⟩ := honest_of_run h₀ hP
  obtain ⟨hn, hr⟩ := hg j hj rfl
  obtain ⟨-, hrows⟩ := hh.completed j hj rfl hcompleted
  obtain ⟨seed, hseed, hjob, hzero⟩ :=
    hn.covers 0 (le_refl 0) (by have := hn.start; omega)
  have hroot : seed.discoveredFromTaskId = none := by
    cases hfrom : seed.discoveredFromTaskId with
    | none => rfl
    | some id =>
        obtain ⟨u, hu, -, hujob, -, hlt, -⟩ := hr.parent seed hseed hjob id hfrom
        have hrange := (hn.range u hu hujob).1
        omega
  have hstate := (hrows seed hseed hjob).2 hroot
  have hfailed : ∀ t ∈ s.tasks, t.jobId = j.id → t.state.failed = false :=
    fun t ht htjob => (hrows t ht htjob).1
  refine ⟨seed, hseed, hjob, hroot, ⟨fun h hblocked => ?_, fun hne => ?_⟩, fun hadmits => ?_⟩
  · rw [h.1] at hblocked
    cases hblocked
  · exact ⟨hstate.resolve_right hne, hfailed⟩
  · exact ⟨hstate.resolve_right (admitted_of_run h₀ hadmits seed hseed hjob hroot), hfailed⟩

/-- The seed succeeds and the job is completed. -/
theorem completed_honest_succeed :
    let s := run Sample.identity {} [Sample.submit, Sample.claim, Sample.succeed, Sample.finalize]
    ∃ seed ∈ s.tasks, seed.jobId = 1 ∧ seed.state = .succeeded := by
  intro s
  obtain ⟨j, hj, hid, hcompleted⟩ : ∃ j ∈ s.jobs, j.id = 1 ∧ j.state = .completed := by
    decide
  have hseed := completed_honest Sample.identity 1 {} (by simp [Store.blank])
    [Sample.submit, Sample.claim, Sample.succeed, Sample.finalize]
    (stepsMeet_of_forall fun r hr _ => ?_) j hj hid hcompleted
  · obtain ⟨seed, hseed, hjob, -, -, hhonest⟩ := hseed
    refine ⟨seed, hseed, hjob, (hhonest (stepsMeet_of_forall fun r hr s t _ _ => ⟨?_, ?_⟩)).1⟩
    · rintro ⟨taskId, token, code, f, hcall, -⟩
      simp only [List.mem_cons, List.not_mem_nil, or_false] at hr
      rcases hr with rfl | rfl | rfl | rfl <;> cases hcall
    · rintro ⟨role, taskId, token, code, worker, f, hcall, -⟩
      simp only [List.mem_cons, List.not_mem_nil, or_false] at hr
      rcases hr with rfl | rfl | rfl | rfl <;> cases hcall
  · rintro ⟨config, rows, hcall⟩
    simp only [List.mem_cons, List.not_mem_nil, or_false] at hr
    rcases hr with rfl | rfl | rfl | rfl <;> cases hcall

/-- The core denies the seed by robots and the finalizer completes the job. -/
theorem denied_completed :
    let s := run Sample.identity {} [Sample.submit, Sample.claim, Sample.block, Sample.finalize]
    (∃ j ∈ s.jobs, j.id = 1 ∧ j.state = .completed) ∧
      ∀ t ∈ s.tasks, t.jobId = 1 ∧ t.state = .blockedRobots := by
  decide

end Lifecycle

end CrawlTrove
