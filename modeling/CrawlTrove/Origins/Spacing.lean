import CrawlTrove.Origins.Touches

/-!
# Politeness

A granted claim moves the origin's next request at least its job's delay
ahead, and no transaction ever moves it back: claims wait for it, failures
raise it, and everything else leaves it alone. Two claims on one origin
are therefore as far apart as the first one's job asks.
-/

namespace CrawlTrove

open Relational Transaction

namespace Origins

variable {url : UrlIdentity}

/-- The origin is not due before this time. -/
def NotBefore (key : String) (due : Time) (s : Store) : Prop :=
  ∃ o ∈ s.origins, o.originKey = key ∧ due ≤ o.nextRequestAt

/-! ## A claim -/

theorem notBefore_of_pace {now : Time} {key : String} {delay : ℤ} {s s' : Store} {o : Origin}
    (ho : o ∈ s.origins) (hkey : o.originKey = key)
    (h : s'.origins = (paceOrigin now key delay s).origins) :
    NotBefore key (now + milliseconds delay) s' := by
  have hrow := @mem_paceOrigin now key delay s o ho
  rw [if_pos hkey, ← h] at hrow
  exact ⟨_, hrow, hkey, le_refl _⟩

theorem claimLocked_notBefore {x : Txn} {workerId : String} {task : Task} {job : Job}
    {s s' : Store} {g : ClaimedTask} (h : claimLocked x workerId task job s = .ok (some g, s')) :
    NotBefore g.originKey (x.now + milliseconds g.config.minDelayMs) s' := by
  simp only [claimLocked, bind_ok, exec_ok, read_ok] at h
  obtain ⟨_, s₁, rfl, found, _, ⟨hfound, rfl⟩, h⟩ := h
  cases found with
  | none => simp [pure_ok] at h
  | some origin =>
      obtain ⟨horigin, hkey⟩ := origin?_eq_some.mp hfound
      simp only at h
      cases hblocked : origin.blockedUntil.filter (x.now < ·) with
      | some blockedUntil =>
          simp only [hblocked, bind_ok, exec_ok, pure_ok] at h
          obtain ⟨_, _, _, h, _⟩ := h
          cases h
      | none =>
          simp only [hblocked, bind_ok, exec_ok] at h
          obtain ⟨_, s₂, hs₂, h⟩ := h
          have hmem : ∃ o ∈ s₂.origins, o.originKey = task.originKey := by
            subst hs₂
            split
            · refine ⟨_, mem_updateOrigins horigin rfl, ?_⟩
              split <;> exact hkey
            · exact ⟨origin, horigin, hkey⟩
          obtain ⟨o, ho, hokey⟩ := hmem
          rcases claimPaced_origins h with ⟨hnone, -⟩ | ⟨g', hg, hgkey, hconfig, -, horigins⟩
          · cases hnone
          · obtain rfl := Option.some.inj hg
            rw [hgkey, hconfig]
            exact notBefore_of_pace ho hokey horigins

theorem claimTask_notBefore {x : Txn} {workerId : String} {capabilities : List String}
    {s s' : Store} {g : ClaimedTask}
    (h : claimTask x workerId capabilities s = .ok (some g, s')) :
    NotBefore g.originKey (x.now + milliseconds g.config.minDelayMs) s' := by
  simp only [claimTask, bind_ok, read_ok] at h
  obtain ⟨found, _, ⟨-, rfl⟩, h⟩ := h
  cases found with
  | none => simp [pure_ok] at h
  | some task =>
      simp only [bind_ok, read_ok] at h
      obtain ⟨job, _, ⟨-, rfl⟩, h⟩ := h
      cases job with
      | none => simp [pure_ok] at h
      | some job =>
          simp only at h
          split at h
          · simp [pure_ok] at h
          · exact claimLocked_notBefore h

theorem remote_claimLocked_notBefore {x : Txn} {worker : Worker} {task : Task} {job : Job}
    {origin : Origin} {s s' : Store} {g : ClaimedTask}
    (horigin : s.origin? task.originKey = some origin)
    (h : WorkerApi.claimLocked x worker task job origin s = .ok (some g, s')) :
    NotBefore g.originKey (x.now + milliseconds g.config.minDelayMs) s' := by
  obtain ⟨hmem, hkey⟩ := origin?_eq_some.mp horigin
  unfold WorkerApi.claimLocked at h
  generalize (if origin.circuitState = .open' then _ else none : Option Time) = blocked at h
  cases blocked with
  | some blockedUntil =>
      simp only [bind_ok, exec_ok, pure_ok] at h
      obtain ⟨_, _, _, h, _⟩ := h
      cases h
  | none =>
      simp only at h
      split at h
      · simp at h
      · rcases remote_claimPaced_origins h with ⟨hnone, -⟩ |
          ⟨g', hg, hgkey, hconfig, -, -, horigins⟩
        · cases hnone
        · obtain rfl := Option.some.inj hg
          rw [hgkey, hconfig]
          exact notBefore_of_pace hmem hkey horigins

theorem remote_claim_notBefore {x : Txn} {role : String} {capabilities : List String}
    {s s' : Store} {g : ClaimedTask}
    (h : WorkerApi.claim x role capabilities s = .ok (some g, s')) :
    NotBefore g.originKey (x.now + milliseconds g.config.minDelayMs) s' := by
  simp only [WorkerApi.claim, bind_ok] at h
  obtain ⟨worker, s₁, h₁, h⟩ := h
  split at h
  · simp at h
  · simp only [bind_ok, read_ok] at h
    obtain ⟨found, _, ⟨-, rfl⟩, h⟩ := h
    cases found with
    | none => simp [pure_ok] at h
    | some task =>
        simp only [bind_ok, read_ok] at h
        obtain ⟨job, _, ⟨-, rfl⟩, h⟩ := h
        cases job with
        | none => simp [pure_ok] at h
        | some job =>
            simp only [bind_ok, read_ok] at h
            obtain ⟨origin, _, ⟨horigin, rfl⟩, h⟩ := h
            cases origin with
            | none => simp [pure_ok] at h
            | some origin => exact remote_claimLocked_notBefore horigin h

theorem join_commit {m : Tx (Option ClaimedTask)} {s : Store} {g : ClaimedTask}
    (h : (commit m s).1.toOption.join = some g) : ∃ s', m s = .ok (some g, s') := by
  unfold commit at h
  cases hm : m s with
  | error e => simp [hm, Except.toOption] at h
  | ok p =>
      obtain ⟨r, s'⟩ := p
      refine ⟨s', ?_⟩
      simp only [hm, Except.toOption, Option.join_some] at h
      rw [h]

/-- A granted claim commits what its transaction leaves. -/
theorem granted_cases {r : Request} {s : Store} {g : ClaimedTask} (h : granted r s = some g) :
    ∃ m : Tx (Option ClaimedTask), m s = .ok (some g, step url r s) ∧
      ((∃ workerId capabilities, m = claimTask r.txn workerId capabilities) ∨
        ∃ role capabilities, m = WorkerApi.claim r.txn role capabilities) := by
  obtain ⟨x, call⟩ := r
  unfold granted at h
  split at h
  · rename_i workerId capabilities hcall
    simp only at hcall
    subst hcall
    obtain ⟨s', hm⟩ := join_commit h
    refine ⟨_, ?_, Or.inl ⟨workerId, capabilities, rfl⟩⟩
    rw [hm, step_of_body (map_ok.mpr ⟨_, hm, rfl⟩)]
  · rename_i role capabilities hcall
    simp only at hcall
    subst hcall
    obtain ⟨s', hm⟩ := join_commit h
    refine ⟨_, ?_, Or.inr ⟨role, capabilities, rfl⟩⟩
    rw [hm, step_of_body (map_ok.mpr ⟨_, hm, rfl⟩)]
  · cases h

/-- Whoever is granted a claim, the origin is due again only after the delay. -/
theorem granted_notBefore {r : Request} {s : Store} {g : ClaimedTask} (h : granted r s = some g) :
    NotBefore g.originKey (r.txn.now + milliseconds g.config.minDelayMs) (step url r s) := by
  obtain ⟨m, hm, ⟨workerId, capabilities, rfl⟩ | ⟨role, capabilities, rfl⟩⟩ :=
    @granted_cases url r s g h
  · exact claimTask_notBefore hm
  · exact remote_claim_notBefore hm

/-! ## The other steps -/

/-- A claim touches the origin of the task it is granted. -/
theorem touch_of_granted {r : Request} {s : Store} {g : ClaimedTask} (h : granted r s = some g) :
    touch url r s = some (g.originKey, .claimed g.config.minDelayMs) := by
  simp [touch, h]

/-- Only a granted claim touches an origin as one. -/
theorem granted_of_touch {r : Request} {s : Store} {key : String} {delay : ℤ}
    (h : touch url r s = some (key, .claimed delay)) :
    ∃ g, granted r s = some g ∧ g.originKey = key ∧ g.config.minDelayMs = delay := by
  unfold touch at h
  split at h
  · rename_i g hg
    simp only [Option.some.injEq, Prod.mk.injEq, Touch.claimed.injEq] at h
    exact ⟨g, hg, h.1, h.2⟩
  · split at h
    · rename_i taskId token t hreply hreport
      rw [Option.bind_eq_some_iff] at h
      obtain ⟨task, -, h⟩ := h
      split at h
      · simp only [Option.some.injEq, Prod.mk.injEq] at h
        obtain ⟨-, rfl⟩ := h
        revert hreport
        unfold report
        split <;> simp
      · cases h
    · cases h

theorem milliseconds_nonneg {n : ℤ} (h : 0 ≤ n) : 0 ≤ milliseconds n := by
  exact mul_nonneg h (by decide)

/-- No request moves an origin's next request back. -/
theorem OriginStep.nextRequestAt_le {r : Request} {s : Store} {o o' : Origin}
    (h : OriginStep url r s o o') : o.nextRequestAt ≤ o'.nextRequestAt := by
  cases h with
  | untouched _ _ same => exact le_of_eq (eq_of_pace same Origin.nextRequestAt fun _ => rfl).symm
  | probed _ _ _ => exact le_refl _
  | touched t eq admits =>
      cases t with
      | claimed delay =>
          obtain ⟨g, -, -, rfl⟩ := granted_of_touch eq
          have hdelay := milliseconds_nonneg g.config.minDelayMs_ok.1
          have hpaced := (admits _ rfl).paced
          show o.nextRequestAt ≤ r.txn.now + milliseconds g.config.minDelayMs
          exact le_trans hpaced (le_add_of_nonneg_right hdelay)
      | succeeded => exact le_refl _
      | failed errorClass availableAt cools => exact le_max_left ..

theorem step_notBefore {key : String} {due : Time} (r : Request) {s : Store}
    (h : NotBefore key due s) : NotBefore key due (step url r s) := by
  obtain ⟨o, ho, hkey, hdue⟩ := h
  obtain ⟨o', ho', hkey', hstep⟩ := @step_origins url r _ _ ho
  exact ⟨o', ho', hkey'.trans hkey, le_trans hdue hstep.nextRequestAt_le⟩

theorem run_notBefore {key : String} {due : Time} {s : Store} (requests : List Request)
    (h : NotBefore key due s) : NotBefore key due (run url s requests) :=
  runFrom_invariant (P := fun _ _ => True) (fun r _ _ hs => step_notBefore r hs)
    (stepsMeet_of_forall fun _ _ _ => trivial) h

/-- A claim is granted only once the origin is due. -/
theorem NotBefore.le_of_granted (url : UrlIdentity) {key : String} {due : Time} {r : Request} {s : Store}
    {g : ClaimedTask} (h : NotBefore key due s) (hg : granted r s = some g)
    (hkey : g.originKey = key) : due ≤ r.txn.now := by
  obtain ⟨o, ho, hokey, hdue⟩ := h
  have htouch : touch url r s = some (o.originKey, .claimed g.config.minDelayMs) := by
    rw [touch_of_granted hg, hkey, hokey]
  obtain ⟨o', -, -, hstep⟩ := @step_origins url r _ _ ho
  cases hstep with
  | untouched _ other _ => exact absurd htouch (other _)
  | probed other _ _ => exact absurd htouch (other _)
  | touched t eq admits =>
      obtain rfl : t = .claimed g.config.minDelayMs := by
        have := eq.symm.trans htouch
        simpa using this
      exact le_trans hdue (admits _ rfl).paced

/-! ## Runs -/

/-- Two granted claims on one origin, anywhere in a run, are as far apart as
the job of the first one asks. -/
theorem claims_spaced (s : Store) (before between : List Request) (first second : Request)
    (g g' : ClaimedTask) (hfirst : granted first (run url s before) = some g)
    (hsecond : granted second (run url s (before ++ first :: between)) = some g')
    (hsame : g'.originKey = g.originKey) :
    first.txn.now + milliseconds g.config.minDelayMs ≤ second.txn.now := by
  rw [run, runFrom_append, runFrom_cons] at hsecond
  have hclaimed : NotBefore g.originKey (first.txn.now + milliseconds g.config.minDelayMs)
      (step url first (run url s before)) := granted_notBefore hfirst
  have hlater := @run_notBefore url _ _ _ between hclaimed
  exact hlater.le_of_granted url hsecond hsame

/-- The claim of the page the sample crawl discovers. -/
def claimNext : Request :=
  ⟨{ now := seconds 3, uuid := fun n => 31 + n }, .claimTask "local" ["http"]⟩

theorem claims_spaced_crawl :
    ∃ g g', granted Sample.claim (run Sample.identity {} [Sample.submit]) = some g ∧
      granted claimNext (run Sample.identity {} [Sample.submit, Sample.claim, Sample.complete]) =
        some g' ∧
      Sample.claim.txn.now + milliseconds g.config.minDelayMs ≤ claimNext.txn.now := by
  let earlier := granted Sample.claim (run Sample.identity {} [Sample.submit])
  let later := granted claimNext (run Sample.identity {} Sample.crawl)
  have hearlier : earlier.isSome = true := by decide
  have hlater : later.isSome = true := by decide
  have hkeys : later.map ClaimedTask.originKey = earlier.map ClaimedTask.originKey := by
    decide
  obtain ⟨g, hg⟩ := Option.isSome_iff_exists.mp hearlier
  obtain ⟨g', hg'⟩ := Option.isSome_iff_exists.mp hlater
  refine ⟨g, g', hg, hg', ?_⟩
  refine @claims_spaced Sample.identity {} [Sample.submit] [Sample.complete] Sample.claim
    claimNext g g' hg hg' ?_
  simpa [hg, hg'] using hkeys

end Origins

end CrawlTrove
