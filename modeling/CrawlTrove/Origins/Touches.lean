import CrawlTrove.Origins.Frames
import CrawlTrove.Lifecycle.Refinement

/-!
# What a request does to an origin

`touch` reads off a request and the store it finds which origin its accepted
transaction touches, and how: a granted claim, a success, or a failure after
which the task waits for another attempt. `step_origins` is the inversion
lemma of the section: a row that is touched becomes what the touch makes of
it, every other row keeps its pace, but for a circuit that turns half-open
when the core finds its window over.
-/

namespace CrawlTrove

open Relational Transaction

namespace Origins

/-! ## Claims -/

/-- The task a request is granted, if it is a claim. -/
def granted (r : Request) (s : Store) : Option ClaimedTask :=
  match r.call with
  | .claimTask workerId capabilities =>
      (commit (claimTask r.txn workerId capabilities) s).1.toOption.join
  | .remote role (.claim capabilities) =>
      (commit (WorkerApi.claim r.txn role capabilities) s).1.toOption.join
  | _ => none

/-- The origin's row admits a claim at this time. -/
structure Admits (now : Time) (o : Origin) : Prop where
  paced : o.nextRequestAt ≤ now
  unblocked : ∀ t, o.blockedUntil = some t → t ≤ now

/-- The origin after a granted claim. -/
def claimedOrigin (now : Time) (minDelayMs : ℤ) (o : Origin) : Origin :=
  { o with
    circuitState := if o.circuitState = .open' then .halfOpen else o.circuitState
    nextRequestAt := now + milliseconds minDelayMs }

/-- What a claim does to a row, whatever it is granted. -/
inductive ClaimStep (now : Time) (r : Option ClaimedTask) (o : Origin) : Origin → Prop
  | keep (other : ∀ g, r = some g → g.originKey ≠ o.originKey) : ClaimStep now r o o
  | probe (refused : r = none) (isOpen : o.circuitState = .open')
      (past : ∀ t, o.blockedUntil = some t → t ≤ now) :
      ClaimStep now r o { o with circuitState := .halfOpen }
  | grant (g : ClaimedTask) (given : r = some g) (same : g.originKey = o.originKey)
      (admits : Admits now o) : ClaimStep now r o (claimedOrigin now g.config.minDelayMs o)

theorem origin_eq_of_key {T : Table Origin} {a b : Origin} (ha : a ∈ T) (hb : b ∈ T)
    (h : a.originKey = b.originKey) : a = b :=
  Table.eq_of_clash ha hb (by simp [Clashes, Keyed.clash, Keyed.key, h])

theorem origin?_eq_some {s : Store} {key : String} {o : Origin} :
    s.origin? key = some o ↔ o ∈ s.origins ∧ o.originKey = key := by
  constructor
  · intro h
    simpa using Table.find?_eq_some h
  · rintro ⟨ho, rfl⟩
    exact Table.find?_eq_of_mem ho (by simp) fun x hx hkey =>
      origin_eq_of_key hx ho (by simpa using hkey)

/-- Existing rows survive `ON CONFLICT DO NOTHING`, and no other table moves. -/
theorem ensureOrigin_mem {now : Time} {key : String} {s : Store} {o : Origin}
    (ho : o ∈ s.origins) : o ∈ (s.ensureOrigin now key).origins := by
  unfold Store.ensureOrigin
  split
  · rename_i T hT
    exact (Table.mem_of_insert? hT).mpr (Or.inl ho)
  · exact ho

/-- The row an `UPDATE crawl_origins` leaves in place of another. -/
theorem mem_updateOrigins {p : Origin → Bool} {f : Origin → Origin}
    {hf : ∀ r, Keyed.key (f r) = Keyed.key r} {s : Store} {o o' : Origin} (ho : o ∈ s.origins)
    (h : (if p o then f o else o) = o') : o' ∈ (s.updateOrigins p f hf).origins :=
  (@Table.mem_update _ _ p f s.origins hf o').mpr ⟨o, ho, h⟩

theorem mem_paceOrigin {now : Time} {key : String} {delay : ℤ} {s : Store} {o : Origin}
    (ho : o ∈ s.origins) :
    (if o.originKey = key then { o with nextRequestAt := now + milliseconds delay } else o) ∈
      (paceOrigin now key delay s).origins := by
  unfold paceOrigin
  exact mem_updateOrigins ho (by simp)

/-- A granted lease paces the origin of its task. -/
theorem grantLease_origins {x : Txn} {workerId : String} {task : Task} {job : Job}
    {bytes artifacts : ℤ} {s s' : Store} {g : ClaimedTask}
    (h : grantLease x workerId task job bytes artifacts s = .ok (g, s')) :
    g.originKey = task.originKey ∧ g.config = job.config ∧
      s'.origins = (paceOrigin x.now task.originKey job.config.minDelayMs s).origins := by
  simp only [grantLease, bind_ok, exec_ok, attempt_ok, pure_ok] at h
  obtain ⟨_, _, rfl, _, _, rfl, _, _, rfl, _, s₁, h₁, _, s₂, h₂, _, _, rfl, rfl, rfl⟩ := h
  have hattempt := origins_of_around (insertAttempt_around _ _ h₁)
  have hlease := origins_of_around (insertOriginLease_around _ _ h₂)
  refine ⟨rfl, rfl, ?_⟩
  simp only [paceOrigin, Store.updateOrigins, hlease, hattempt]
  rfl

theorem remote_grantLease_origins {x : Txn} {worker : Worker} {task : Task} {job : Job}
    {bytes artifacts : ℤ} {s s' : Store} {g : ClaimedTask}
    (h : WorkerApi.grantLease x worker task job bytes artifacts s = .ok (g, s')) :
    g.originKey = task.originKey ∧ g.config = job.config ∧
      s'.origins = (paceOrigin x.now task.originKey job.config.minDelayMs s).origins := by
  simp only [WorkerApi.grantLease, bind_ok, exec_ok, attempt_ok, pure_ok] at h
  obtain ⟨_, _, rfl, _, _, rfl, _, _, rfl, _, s₁, h₁, _, _, rfl, _, s₂, h₂, rfl, rfl⟩ := h
  have hlease := origins_of_around (insertOriginLease_around _ _ h₁)
  have hattempt := origins_of_around (insertAttempt_around _ _ h₂)
  refine ⟨rfl, rfl, ?_⟩
  rw [hattempt]
  simp only [paceOrigin, Store.updateOrigins, hlease]
  rfl

theorem claimPaced_origins {x : Txn} {workerId : String} {task : Task} {job : Job}
    {origin : Origin} {s s' : Store} {r : Option ClaimedTask}
    (h : claimPaced x workerId task job origin s = .ok (r, s')) :
    (r = none ∧ s'.origins = s.origins) ∨
      ∃ g, r = some g ∧ g.originKey = task.originKey ∧ g.config = job.config ∧
        origin.nextRequestAt ≤ x.now ∧
        s'.origins = (paceOrigin x.now task.originKey job.config.minDelayMs s).origins := by
  unfold claimPaced at h
  split at h
  · simp only [bind_ok, exec_ok, pure_ok] at h
    obtain ⟨_, _, rfl, rfl, rfl⟩ := h
    exact Or.inl ⟨rfl, rfl⟩
  · rename_i hpaced
    simp only [bind_ok, read_ok] at h
    obtain ⟨leased, _, ⟨-, rfl⟩, h⟩ := h
    split at h
    · obtain ⟨rfl, rfl⟩ := pure_ok.mp h
      exact Or.inl ⟨rfl, rfl⟩
    · split at h
      · simp only [bind_ok, exec_ok, pure_ok] at h
        obtain ⟨_, _, rfl, rfl, rfl⟩ := h
        exact Or.inl ⟨rfl, origins_of_around (drainUnleased_around ..)⟩
      · obtain ⟨g, hg, rfl⟩ := map_ok.mp h
        obtain ⟨hkey, hconfig, horigins⟩ := grantLease_origins hg
        exact Or.inr ⟨g, rfl, hkey, hconfig, not_lt.mp hpaced, horigins⟩

theorem remote_claimPaced_origins {x : Txn} {worker : Worker} {task : Task} {job : Job}
    {origin : Origin} {s s' : Store} {r : Option ClaimedTask}
    (h : WorkerApi.claimPaced x worker task job origin s = .ok (r, s')) :
    (r = none ∧ s' = s) ∨
      ∃ g, r = some g ∧ g.originKey = task.originKey ∧ g.config = job.config ∧
        origin.nextRequestAt ≤ x.now ∧ (∀ t, origin.cooldownUntil = some t → t ≤ x.now) ∧
        s'.origins = (paceOrigin x.now task.originKey job.config.minDelayMs s).origins := by
  unfold WorkerApi.claimPaced at h
  split at h
  · obtain ⟨rfl, rfl⟩ := pure_ok.mp h
    exact Or.inl ⟨rfl, rfl⟩
  · rename_i hpaced
    simp only [not_or, not_lt, Option.any_eq_true, decide_eq_true_eq, not_exists, not_and] at hpaced
    simp only [bind_ok, read_ok] at h
    obtain ⟨leased, _, ⟨-, rfl⟩, h⟩ := h
    split at h
    · obtain ⟨rfl, rfl⟩ := pure_ok.mp h
      exact Or.inl ⟨rfl, rfl⟩
    · split at h
      · obtain ⟨rfl, rfl⟩ := pure_ok.mp h
        exact Or.inl ⟨rfl, rfl⟩
      · obtain ⟨g, hg, rfl⟩ := map_ok.mp h
        obtain ⟨hkey, hconfig, horigins⟩ := remote_grantLease_origins hg
        exact Or.inr ⟨g, rfl, hkey, hconfig, hpaced.1, hpaced.2, horigins⟩

/-- A filter for later times that finds none. -/
theorem past_of_filter {b : Option Time} {now : Time} (h : b.filter (now < ·) = none) :
    ∀ t, b = some t → t ≤ now := by
  rintro t rfl
  simpa using h

theorem claimLocked_origins {x : Txn} {workerId : String} {task : Task} {job : Job}
    {s s' : Store} {r : Option ClaimedTask} {o : Origin}
    (h : claimLocked x workerId task job s = .ok (r, s')) (ho : o ∈ s.origins) :
    ∃ o' ∈ s'.origins, o'.originKey = o.originKey ∧ ClaimStep x.now r o o' := by
  simp only [claimLocked, bind_ok, exec_ok, read_ok] at h
  obtain ⟨_, s₁, rfl, found, _, ⟨hfound, rfl⟩, h⟩ := h
  have ho₁ : o ∈ (s.ensureOrigin x.now task.originKey).origins := ensureOrigin_mem ho
  generalize s.ensureOrigin x.now task.originKey = s₁ at h hfound ho₁
  cases found with
  | none =>
      obtain ⟨rfl, rfl⟩ := pure_ok.mp h
      exact ⟨o, ho₁, rfl, .keep (by simp)⟩
  | some origin =>
      obtain ⟨horigin, hkey⟩ := origin?_eq_some.mp hfound
      simp only at h
      cases hblocked : origin.blockedUntil.filter (x.now < ·) with
      | some blockedUntil =>
          simp only [hblocked, bind_ok, exec_ok, pure_ok] at h
          obtain ⟨_, _, rfl, rfl, rfl⟩ := h
          exact ⟨o, ho₁, rfl, .keep (by simp)⟩
      | none =>
          simp only [hblocked, bind_ok, exec_ok] at h
          obtain ⟨_, s₂, hs₂, h⟩ := h
          have hpast := past_of_filter hblocked
          -- The row as it stands when the pacing is checked.
          have hhalf : (if o.originKey = task.originKey ∧ o.circuitState = .open' then
              { o with circuitState := .halfOpen } else o) ∈ s₂.origins := by
            subst hs₂
            by_cases hopen : origin.circuitState = .open'
            · rw [if_pos hopen]
              simp only [halfOpen, Store.updateOrigins, Table.mem_update]
              refine ⟨o, ho₁, ?_⟩
              by_cases hsame : o.originKey = task.originKey
              · have : o = origin := origin_eq_of_key ho₁ horigin (hsame.trans hkey.symm)
                simp [hsame, this ▸ hopen]
              · simp [hsame]
            · rw [if_neg hopen, if_neg]
              · exact ho₁
              · rintro ⟨hsame, hopen'⟩
                rw [origin_eq_of_key ho₁ horigin (hsame.trans hkey.symm)] at hopen'
                exact hopen hopen'
          rcases claimPaced_origins h with ⟨rfl, horigins⟩ |
            ⟨g, rfl, hgkey, hconfig, hpaced, horigins⟩
          · rw [horigins]
            by_cases hprobe : o.originKey = task.originKey ∧ o.circuitState = .open'
            · rw [if_pos hprobe] at hhalf
              refine ⟨_, hhalf, rfl, .probe rfl hprobe.2 ?_⟩
              rwa [origin_eq_of_key ho₁ horigin (hprobe.1.trans hkey.symm)]
            · rw [if_neg hprobe] at hhalf
              exact ⟨o, hhalf, rfl, .keep (by simp)⟩
          · have hrow := @mem_paceOrigin x.now task.originKey job.config.minDelayMs _ _ hhalf
            rw [← horigins] at hrow
            by_cases hsame : o.originKey = task.originKey
            · refine ⟨claimedOrigin x.now g.config.minDelayMs o, ?_, rfl,
                .grant g rfl (hgkey.trans hsame.symm) ?_⟩
              · rw [hconfig]
                by_cases hopen : o.circuitState = .open' <;>
                  simpa [hsame, hopen, claimedOrigin] using hrow
              · rw [origin_eq_of_key ho₁ horigin (hsame.trans hkey.symm)]
                exact ⟨hpaced, hpast⟩
            · refine ⟨o, by simpa [hsame] using hrow, rfl, .keep ?_⟩
              intro g' hg' hkey'
              obtain rfl := Option.some.inj hg'
              exact hsame (hkey'.symm.trans hgkey)

theorem claimTask_origins {x : Txn} {workerId : String} {capabilities : List String}
    {s s' : Store} {r : Option ClaimedTask} {o : Origin}
    (h : claimTask x workerId capabilities s = .ok (r, s')) (ho : o ∈ s.origins) :
    ∃ o' ∈ s'.origins, o'.originKey = o.originKey ∧ ClaimStep x.now r o o' := by
  simp only [claimTask, bind_ok, read_ok] at h
  obtain ⟨found, _, ⟨-, rfl⟩, h⟩ := h
  cases found with
  | none =>
      obtain ⟨rfl, rfl⟩ := pure_ok.mp h
      exact ⟨o, ho, rfl, .keep (by simp)⟩
  | some task =>
      simp only [bind_ok, read_ok] at h
      obtain ⟨job, _, ⟨-, rfl⟩, h⟩ := h
      cases job with
      | none =>
          obtain ⟨rfl, rfl⟩ := pure_ok.mp h
          exact ⟨o, ho, rfl, .keep (by simp)⟩
      | some job =>
          simp only at h
          split at h
          · obtain ⟨rfl, rfl⟩ := pure_ok.mp h
            exact ⟨o, ho, rfl, .keep (by simp)⟩
          · exact claimLocked_origins h ho

theorem remote_claimLocked_origins {x : Txn} {worker : Worker} {task : Task} {job : Job}
    {origin o : Origin} {s s' : Store} {r : Option ClaimedTask}
    (horigin : s.origin? task.originKey = some origin)
    (h : WorkerApi.claimLocked x worker task job origin s = .ok (r, s')) (ho : o ∈ s.origins) :
    ∃ o' ∈ s'.origins, o'.originKey = o.originKey ∧ ClaimStep x.now r o o' := by
  obtain ⟨hmem, hkey⟩ := origin?_eq_some.mp horigin
  unfold WorkerApi.claimLocked at h
  generalize (if origin.circuitState = .open' then _ else none : Option Time) = blocked at h
  cases blocked with
  | some blockedUntil =>
      simp only [bind_ok, exec_ok, pure_ok] at h
      obtain ⟨_, _, rfl, rfl, rfl⟩ := h
      exact ⟨o, ho, rfl, .keep (by simp)⟩
  | none =>
      simp only at h
      split at h
      · simp at h
      · rename_i hclosed
        rcases remote_claimPaced_origins h with ⟨rfl, rfl⟩ |
          ⟨g, rfl, hgkey, hconfig, hpaced, hcooled, horigins⟩
        · exact ⟨o, ho, rfl, .keep (by simp)⟩
        · have hrow := @mem_paceOrigin x.now task.originKey job.config.minDelayMs _ _ ho
          rw [← horigins] at hrow
          by_cases hsame : o.originKey = task.originKey
          · obtain rfl := origin_eq_of_key ho hmem (hsame.trans hkey.symm)
            refine ⟨claimedOrigin x.now g.config.minDelayMs o, ?_, rfl,
              .grant g rfl (hgkey.trans hsame.symm) ⟨hpaced, fun t ht => hcooled t ?_⟩⟩
            · rw [hconfig]
              simpa [hsame, hclosed, claimedOrigin] using hrow
            · rwa [Origin.blockedUntil, if_neg hclosed] at ht
          · refine ⟨o, by simpa [hsame] using hrow, rfl, .keep ?_⟩
            intro g' hg' hkey'
            obtain rfl := Option.some.inj hg'
            exact hsame (hkey'.symm.trans hgkey)

theorem remote_claim_origins {x : Txn} {role : String} {capabilities : List String}
    {s s' : Store} {r : Option ClaimedTask} {o : Origin}
    (h : WorkerApi.claim x role capabilities s = .ok (r, s')) (ho : o ∈ s.origins) :
    ∃ o' ∈ s'.origins, o'.originKey = o.originKey ∧ ClaimStep x.now r o o' := by
  simp only [WorkerApi.claim, bind_ok] at h
  obtain ⟨worker, s₁, h₁, h⟩ := h
  obtain rfl := Lifecycle.identity_ok h₁
  split at h
  · simp at h
  · simp only [bind_ok, read_ok] at h
    obtain ⟨found, _, ⟨-, rfl⟩, h⟩ := h
    cases found with
    | none =>
        obtain ⟨rfl, rfl⟩ := pure_ok.mp h
        exact ⟨o, ho, rfl, .keep (by simp)⟩
    | some task =>
        simp only [bind_ok, read_ok] at h
        obtain ⟨job, _, ⟨-, rfl⟩, h⟩ := h
        cases job with
        | none =>
            obtain ⟨rfl, rfl⟩ := pure_ok.mp h
            exact ⟨o, ho, rfl, .keep (by simp)⟩
        | some job =>
            simp only [bind_ok, read_ok] at h
            obtain ⟨origin, _, ⟨horigin, rfl⟩, h⟩ := h
            cases origin with
            | none =>
                obtain ⟨rfl, rfl⟩ := pure_ok.mp h
                exact ⟨o, ho, rfl, .keep (by simp)⟩
            | some origin => exact remote_claimLocked_origins horigin h ho

/-! ## Reports -/

/-- What a request does to an origin. -/
inductive Touch
  | claimed (minDelayMs : ℤ)
  | succeeded
  /-- A failure after which the task waits; the core also cools the origin down. -/
  | failed (errorClass : String) (availableAt : Time) (cools : Bool)
deriving DecidableEq

/-- The origin's row after the touch. -/
def Touch.apply (now : Time) (o : Origin) : Touch → Origin
  | .claimed minDelayMs => claimedOrigin now minDelayMs o
  | .succeeded =>
      { o with
        consecutiveFailures := 0
        circuitState := .closed
        circuitOpenUntil := none
        cooldownUntil := none }
  | .failed errorClass availableAt cools =>
      { o.recordFailure now errorClass availableAt with
        cooldownUntil :=
          if cools then greatest o.cooldownUntil (some availableAt) else o.cooldownUntil }

/-- The lease a call reports a success or a failure of. -/
def report : Call → Option (Uuid × Uuid × Touch)
  | .completeTask taskId token _ => some (taskId, token, .succeeded)
  | .retryTask taskId token decision availableAt _ =>
      some (taskId, token, .failed decision.errorClass availableAt true)
  | .remote _ (.complete taskId token _ _) => some (taskId, token, .succeeded)
  | .remote _ (.retry taskId token errorClass _ availableAt _) =>
      some (taskId, token, .failed errorClass availableAt false)
  | _ => none

/-- The task leased under this token. -/
def leaseholder (s : Store) (taskId token : Uuid) : Option Task :=
  s.tasks.find? fun t => t.id = taskId && t.state = .leased && t.leaseToken = some token

theorem leaseholder_of_holds {s : Store} {t : Task} {token : Uuid}
    (h : Lifecycle.Holds s t token) : leaseholder s t.id token = some t := by
  refine Table.find?_eq_of_mem h.mem (by simp [h.leased, h.token]) fun u hu hp => ?_
  simp only [Bool.and_eq_true, decide_eq_true_eq] at hp
  exact task_eq_of_id hu h.mem hp.1.1

/-- The report reaches the origin: a failure only while attempts are left. -/
def Touch.lands (task : Task) : Touch → Bool
  | .failed _ _ _ => decide (task.attemptCount < task.maxAttempts)
  | _ => true

variable (url : UrlIdentity)

/-- The origin an accepted request touches, and how. -/
def touch (r : Request) (s : Store) : Option (String × Touch) :=
  match granted r s with
  | some g => some (g.originKey, .claimed g.config.minDelayMs)
  | none =>
      match reply url r s, report r.call with
      | .ok true, some (taskId, token, t) =>
          (leaseholder s taskId token).bind fun task =>
            if t.lands task then some (task.originKey, t) else none
      | _, _ => none

variable {url}

/-- What a report that returns `b` does to a row. -/
def ReportStep (now : Time) (s : Store) (taskId token : Uuid) (t : Touch) (b : Bool) (o : Origin)
    (s' : Store) : Prop :=
  (b = false ∧ o ∈ s'.origins) ∨ b = true ∧ ∃ task, leaseholder s taskId token = some task ∧
    (if t.lands task = true ∧ o.originKey = task.originKey then t.apply now o else o) ∈ s'.origins

/-- The row of a success report. -/
theorem completeTask_origins {x : Txn} {taskId token : Uuid} {result : TaskResult} {s s' : Store}
    {b : Bool} {o : Origin} (h : completeTask url x taskId token result s = .ok (b, s'))
    (ho : o ∈ s.origins) : ReportStep x.now s taskId token .succeeded b o s' := by
  simp only [completeTask, bind_ok] at h
  obtain ⟨r, s₁, h₁, h⟩ := h
  rcases @Lifecycle.activeLease_ok (fun _ => True) trivial _ _ _ _ _ _ h₁ with
    ⟨rfl, -⟩ | ⟨f, rfl, rfl, hf, rfl, rfl⟩
  · obtain ⟨rfl, rfl⟩ := pure_ok.mp h
    have hsame : s₁.origins = s.origins := origins_of_around (activeLease_keeps _ _ _ h₁)
    exact Or.inl ⟨rfl, hsame ▸ ho⟩
  · simp only at h
    split at h
    · simp only [bind_ok, exec_ok, pure_ok] at h
      obtain ⟨_, _, rfl, rfl, rfl⟩ := h
      refine Or.inl ⟨rfl, ?_⟩
      rw [origins_of_around (rejectOverBudget_around ..)]
      exact ho
    · simp only [bind_ok, read_ok] at h
      obtain ⟨found, _, ⟨-, rfl⟩, h⟩ := h
      split at h
      · obtain ⟨rfl, rfl⟩ := pure_ok.mp h
        exact Or.inl ⟨rfl, ho⟩
      · simp only [bind_ok, attempt_ok, exec_ok, pure_ok] at h
        obtain ⟨_, s₂, h₂, _, s₃, h₃, _, _, rfl, rfl, rfl⟩ := h
        refine Or.inr ⟨rfl, f.task, leaseholder_of_holds hf.toHolds, ?_⟩
        have hresult : s₂.origins = s₁.origins := origins_of_around (insertResult_around _ _ h₂)
        have hlinks : s₃.origins = s₂.origins :=
          origins_of_around (insertDiscovered_keeps _ _ _ _ h₃)
        show _ ∈ (resetOrigin f.task.originKey s₃).origins
        simp only [resetOrigin, Store.updateOrigins, Table.mem_update]
        refine ⟨o, by rw [hlinks, hresult]; exact ho, ?_⟩
        simp [Touch.apply, Touch.lands]

theorem complete_origins {x : Txn} {role : String} {taskId token : Uuid}
    {artifact : WorkerApi.ArtifactRef} {report : WorkerApi.Report} {s s' : Store} {b : Bool}
    {o : Origin} (h : WorkerApi.complete x role taskId token artifact report s = .ok (b, s'))
    (ho : o ∈ s.origins) : ReportStep x.now s taskId token .succeeded b o s' := by
  simp only [WorkerApi.complete, bind_ok, read_ok] at h
  obtain ⟨worker, s₁, h₁, found, _, ⟨hfound, rfl⟩, h⟩ := h
  obtain rfl := Lifecycle.identity_ok h₁
  cases found with
  | none =>
      obtain ⟨rfl, rfl⟩ := pure_ok.mp h
      exact Or.inl ⟨rfl, ho⟩
  | some f =>
      obtain ⟨hf, rfl, rfl⟩ := Lifecycle.activeTask_ok hfound
      simp only [bind_ok] at h
      obtain ⟨size, s₂, h₂, cast, s₃, h₃, h⟩ := h
      have hcast₂ : s₂.origins = s₁.origins := origins_of_around (castInt_keeps _ _ h₂)
      have hcast₃ : s₃.origins = s₂.origins := origins_of_around (castInt_keeps _ _ h₃)
      have ho₃ : o ∈ s₃.origins := by rw [hcast₃, hcast₂]; exact ho
      split at h
      · obtain ⟨rfl, rfl⟩ := pure_ok.mp h
        exact Or.inl ⟨rfl, ho₃⟩
      · split at h
        · simp at h
        · simp only [bind_ok, read_ok] at h
          obtain ⟨found, _, ⟨-, rfl⟩, h⟩ := h
          split at h
          · obtain ⟨rfl, rfl⟩ := pure_ok.mp h
            exact Or.inl ⟨rfl, ho₃⟩
          · simp only [bind_ok, attempt_ok, exec_ok, pure_ok] at h
            obtain ⟨_, s₄, h₄, _, _, rfl, _, s₅, h₅, rfl, rfl⟩ := h
            refine Or.inr ⟨rfl, f.task, leaseholder_of_holds hf.toHolds, ?_⟩
            have hresult : s₄.origins = s₃.origins :=
              origins_of_around (insertResult_around _ _ h₄)
            have hlinks : s₅.origins = _ := origins_of_around (remote_insertLinks_keeps _ _ _ _ h₅)
            rw [hlinks]
            show _ ∈ (resetOrigin f.task.originKey _).origins
            simp only [resetOrigin, Store.updateOrigins, Table.mem_update]
            refine ⟨o, ?_, by simp [Touch.apply, Touch.lands]⟩
            show o ∈ s₄.origins
            rw [hresult]
            exact ho₃

theorem mem_penalizeOrigin {now : Time} {key errorClass : String} {availableAt : Time} {s : Store}
    {o : Origin} (ho : o ∈ s.origins) :
    (if o.originKey = key then Touch.apply now o (.failed errorClass availableAt true) else o) ∈
      (penalizeOrigin now key errorClass availableAt s).origins := by
  unfold penalizeOrigin
  refine mem_updateOrigins ho ?_
  by_cases hsame : o.originKey = key <;> simp [hsame, Touch.apply]

/-- The row of a failure report. -/
theorem retryTask_origins {x : Txn} {taskId token : Uuid} {decision : FailureDecision}
    {availableAt : Time} {metadata : Metadata} {s s' : Store} {b : Bool} {o : Origin}
    (h : retryTask x taskId token decision availableAt metadata s = .ok (b, s'))
    (ho : o ∈ s.origins) :
    ReportStep x.now s taskId token (.failed decision.errorClass availableAt true) b o s' := by
  simp only [retryTask, bind_ok] at h
  obtain ⟨r, s₁, h₁, h⟩ := h
  rcases @Lifecycle.activeLease_ok (fun _ => True) trivial _ _ _ _ _ _ h₁ with
    ⟨rfl, -⟩ | ⟨f, rfl, rfl, hf, rfl, rfl⟩
  · obtain ⟨rfl, rfl⟩ := pure_ok.mp h
    have hsame : s₁.origins = s.origins := origins_of_around (activeLease_keeps _ _ _ h₁)
    exact Or.inl ⟨rfl, hsame ▸ ho⟩
  · simp only at h
    split at h
    · rename_i hlast
      simp only [bind_ok, exec_ok, pure_ok] at h
      obtain ⟨_, _, rfl, rfl, rfl⟩ := h
      refine Or.inr ⟨rfl, f.task, leaseholder_of_holds hf.toHolds, ?_⟩
      rw [if_neg (by simp [Touch.lands]; omega), origins_of_around (failPermanently_around ..)]
      exact ho
    · rename_i hleft
      simp only [bind_ok, exec_ok, pure_ok] at h
      obtain ⟨_, _, rfl, rfl, rfl⟩ := h
      refine Or.inr ⟨rfl, f.task, leaseholder_of_holds hf.toHolds, ?_⟩
      have hcharge := origins_of_around (chargeDownload_around f.task
        (actualBytes f.task metadata) (releaseLease f
          (requeueTask f availableAt decision.errorClass decision.errorCode s₁)))
      have hrow := @mem_penalizeOrigin x.now f.task.originKey decision.errorClass availableAt
        _ o (hcharge ▸ ho)
      simp only [Touch.lands, decide_eq_true_eq, not_le.mp hleft, true_and]
      exact hrow

theorem retry_origins {x : Txn} {role : String} {taskId token : Uuid}
    {errorClass errorCode : String} {availableAt : Time} {metadata : Metadata} {s s' : Store}
    {b : Bool} {o : Origin}
    (h : WorkerApi.retry x role taskId token errorClass errorCode availableAt metadata s =
      .ok (b, s')) (ho : o ∈ s.origins) :
    ReportStep x.now s taskId token (.failed errorClass availableAt false) b o s' := by
  simp only [WorkerApi.retry, bind_ok, read_ok] at h
  obtain ⟨worker, s₁, h₁, found, _, ⟨hfound, rfl⟩, h⟩ := h
  obtain rfl := Lifecycle.identity_ok h₁
  cases found with
  | none =>
      obtain ⟨rfl, rfl⟩ := pure_ok.mp h
      exact Or.inl ⟨rfl, ho⟩
  | some t =>
      obtain ⟨ht, hid⟩ := Lifecycle.ownedTask_ok hfound
      simp only [bind_ok] at h
      obtain ⟨reported, s₂, h₂, h⟩ := h
      have hcast : s₂.origins = s₁.origins := origins_of_around (castInt_keeps _ _ h₂)
      split at h
      · rename_i hlast
        simp only [bind_ok, exec_ok, pure_ok] at h
        obtain ⟨_, _, rfl, rfl, rfl⟩ := h
        refine Or.inr ⟨rfl, t, hid ▸ leaseholder_of_holds ht, ?_⟩
        rw [if_neg (by simp [Touch.lands]; omega)]
        show o ∈ s₂.origins
        exact hcast ▸ ho
      · rename_i hleft
        simp only [bind_ok, exec_ok, pure_ok] at h
        obtain ⟨_, _, rfl, rfl, rfl⟩ := h
        refine Or.inr ⟨rfl, t, hid ▸ leaseholder_of_holds ht, ?_⟩
        have hrow : (if o.originKey = t.originKey then
            Origin.recordFailure x.now errorClass availableAt o else o) ∈
              (s₂.updateOrigins (fun o => o.originKey = t.originKey)
                (Origin.recordFailure x.now errorClass availableAt) fun _ => rfl).origins :=
          mem_updateOrigins (hcast ▸ ho) (by simp)
        simp only [Touch.lands, decide_eq_true_eq, not_le.mp hleft, true_and]
        exact hrow

/-! ## One step, one row -/

/-- What the pacing of an origin depends on: everything but its robots file. -/
def pace (o : Origin) : Origin := { o with robotsBody := none, robotsExpiresAt := none }

/-- A column the robots file does not touch. -/
theorem eq_of_pace {α : Type} {o o' : Origin} (h : pace o' = pace o) (π : Origin → α)
    (hπ : ∀ o, π (pace o) = π o) : π o' = π o := by
  rw [← hπ o', h, hπ]

/-- What a request leaves of an origin's row. -/
inductive OriginStep (url : UrlIdentity) (r : Request) (s : Store) (o : Origin) : Origin → Prop
  | touched (t : Touch) (eq : touch url r s = some (o.originKey, t))
      (admits : ∀ delay, t = .claimed delay → Admits r.txn.now o) :
      OriginStep url r s o (t.apply r.txn.now o)
  | untouched (o' : Origin) (other : ∀ t, touch url r s ≠ some (o.originKey, t))
      (same : pace o' = pace o) : OriginStep url r s o o'
  | probed (other : ∀ t, touch url r s ≠ some (o.originKey, t)) (isOpen : o.circuitState = .open')
      (past : ∀ t, o.blockedUntil = some t → t ≤ r.txn.now) :
      OriginStep url r s o { o with circuitState := .halfOpen }

/-- A body that returns is what the step commits. -/
theorem step_of_body {r : Request} {s s' : Store} {b : Bool}
    (h : r.call.body url r.txn s = .ok (b, s')) : step url r s = s' :=
  congrArg Prod.snd (commit_of_ok h)

/-- A request that neither claims nor reports, and keeps the origins. -/
theorem OriginStep.of_keeps {r : Request} {s : Store} {o : Origin} (ho : o ∈ s.origins)
    (hclaim : granted r s = none) (hreport : report r.call = none)
    (hkeeps : Keeps (r.call.body url r.txn)) :
    ∃ o' ∈ (step url r s).origins, o'.originKey = o.originKey ∧ OriginStep url r s o o' := by
  have hsame : (step url r s).origins = s.origins := origins_of_around (hkeeps.committed s)
  refine ⟨o, hsame ▸ ho, rfl, .untouched o (fun t => ?_) rfl⟩
  simp [touch, hclaim, hreport]

/-- A row of a request that neither claims nor reports. -/
theorem OriginStep.of_row {r : Request} {s : Store} {o o' : Origin}
    (hclaim : granted r s = none) (hreport : report r.call = none)
    (ho' : o' ∈ (step url r s).origins) (hkey : o'.originKey = o.originKey)
    (hsame : pace o' = pace o) :
    ∃ o' ∈ (step url r s).origins, o'.originKey = o.originKey ∧ OriginStep url r s o o' := by
  refine ⟨o', ho', hkey, .untouched o' (fun t => ?_) hsame⟩
  simp [touch, hclaim, hreport]

/-- A claim, from what its body does to the row. -/
theorem OriginStep.of_claim {r : Request} {s : Store} {o : Origin}
    {m : Tx (Option ClaimedTask)} (ho : o ∈ s.origins)
    (hclaim : granted r s = (commit m s).1.toOption.join) (hreport : report r.call = none)
    (hbody : r.call.body url r.txn = Option.isSome <$> m)
    (hspec : ∀ g s', m s = .ok (g, s') →
      ∃ o' ∈ s'.origins, o'.originKey = o.originKey ∧ ClaimStep r.txn.now g o o') :
    ∃ o' ∈ (step url r s).origins, o'.originKey = o.originKey ∧ OriginStep url r s o o' := by
  cases hm : m s with
  | error e =>
      have hstep : step url r s = s := by
        unfold step commit
        rw [hbody]
        simp [StateT.map, Functor.map, hm, bind, Except.bind]
      refine OriginStep.of_row ?_ hreport (by rw [hstep]; exact ho) rfl rfl
      simp [hclaim, commit, hm, Except.toOption]
  | ok p =>
      obtain ⟨g, s'⟩ := p
      have hstep : step url r s = s' := by
        refine @step_of_body _ _ _ _ g.isSome ?_
        rw [hbody]
        exact map_ok.mpr ⟨g, hm, rfl⟩
      have hgranted : granted r s = g := by simp [hclaim, commit, hm, Except.toOption]
      obtain ⟨o', ho', hkey, hrow⟩ := hspec g s' hm
      rw [hstep]
      refine ⟨o', ho', hkey, ?_⟩
      cases hrow with
      | keep other =>
          refine .untouched _ (fun t => ?_) rfl
          cases g with
          | none => simp [touch, hgranted, hreport]
          | some g =>
              simp only [touch, hgranted, ne_eq, Option.some.injEq, Prod.mk.injEq, not_and]
              exact fun h => absurd h (other g rfl)
      | probe refused isOpen past =>
          subst refused
          exact .probed (fun t => by simp [touch, hgranted, hreport]) isOpen past
      | grant g given same admits =>
          subst given
          have htouch : touch url r s = some (o.originKey, .claimed g.config.minDelayMs) := by
            simp [touch, hgranted, same]
          exact .touched _ htouch fun _ _ => admits

/-- A report, from what its body does to the row. -/
theorem OriginStep.of_report {r : Request} {s : Store} {o : Origin} {taskId token : Uuid}
    {t : Touch} (ho : o ∈ s.origins) (hclaim : granted r s = none)
    (hreport : report r.call = some (taskId, token, t)) (hplain : ∀ delay, t ≠ .claimed delay)
    (hspec : ∀ b s', r.call.body url r.txn s = .ok (b, s') →
      ReportStep r.txn.now s taskId token t b o s') :
    ∃ o' ∈ (step url r s).origins, o'.originKey = o.originKey ∧ OriginStep url r s o o' := by
  have hkey (now : Time) (o : Origin) : (t.apply now o).originKey = o.originKey := by
    cases t <;> rfl
  cases hbody : r.call.body url r.txn s with
  | error e =>
      have hstep : step url r s = s := by simp [step, commit, hbody]
      have hreply : reply url r s = .error e := by simp [reply, commit, hbody]
      rw [hstep]
      exact ⟨o, ho, rfl, .untouched o (fun t => by simp [touch, hclaim, hreply]) rfl⟩
  | ok p =>
      obtain ⟨b, s'⟩ := p
      have hstep : step url r s = s' := step_of_body hbody
      have hreply : reply url r s = .ok b := by simp [reply, commit, hbody]
      rw [hstep]
      rcases hspec b s' hbody with ⟨rfl, ho'⟩ | ⟨rfl, task, htask, ho'⟩
      · exact ⟨o, ho', rfl, .untouched o (fun t => by simp [touch, hclaim, hreply]) rfl⟩
      · have htouch : touch url r s =
            if t.lands task = true then some (task.originKey, t) else none := by
          simp [touch, hclaim, hreply, hreport, htask]
        by_cases hlands : t.lands task = true ∧ o.originKey = task.originKey
        · rw [if_pos hlands] at ho'
          refine ⟨_, ho', hkey _ o, .touched t ?_ fun delay ht => absurd ht (hplain delay)⟩
          rw [htouch, if_pos hlands.1, hlands.2]
        · rw [if_neg hlands] at ho'
          refine ⟨o, ho', rfl, .untouched o (fun t' => ?_) rfl⟩
          rw [htouch]
          intro heq
          split at heq
          · rename_i hl
            simp only [Option.some.injEq, Prod.mk.injEq] at heq
            exact hlands ⟨hl, heq.1.symm⟩
          · cases heq

/-- Rows survive the submission of a job. -/
theorem submitJob_origins {x : Txn} {config : CrawlConfig} {key : Option String} {s s' : Store}
    {id : Uuid} {o : Origin} (h : submitJob url x config key s = .ok (id, s'))
    (ho : o ∈ s.origins) : o ∈ s'.origins := by
  simp only [submitJob, bind_ok, read_ok] at h
  obtain ⟨found, _, ⟨-, rfl⟩, h⟩ := h
  cases found with
  | some existing =>
      obtain ⟨-, rfl⟩ := pure_ok.mp h
      exact ho
  | none =>
      simp only [bind_ok, attempt_ok, exec_ok, pure_ok] at h
      obtain ⟨_, s₁, h₁, _, s₂, h₂, _, s₃, h₃, _, _, rfl, -, rfl⟩ := h
      have hjob : s₁.origins = s.origins := origins_of_around (insertJob_around _ _ h₁)
      have husage : s₂.origins = s₁.origins := origins_of_around (insertUsageRows_keeps _ _ h₂)
      have hseed : s₃.origins = s₂.origins := origins_of_around (insertTask_around _ _ h₃)
      exact ensureOrigin_mem (by rw [hseed, husage, hjob]; exact ho)

theorem insertRetries_origins {x : Txn} {config : CrawlConfig} {jobId : Uuid} {rows : List String}
    {draw : ℕ} {sequence n : ℤ} {s s' : Store} {o : Origin}
    (h : insertRetries url x config jobId rows draw sequence s = .ok (n, s'))
    (ho : o ∈ s.origins) : o ∈ s'.origins := by
  induction rows generalizing draw sequence s with
  | nil =>
      obtain ⟨-, rfl⟩ := pure_ok.mp h
      exact ho
  | cons original rows ih =>
      simp only [insertRetries, bind_ok, exec_ok] at h
      obtain ⟨_, _, rfl, inserted, s₁, h₁, h⟩ := h
      have hkept : s₁.origins = _ := origins_of_around (insertTaskOnce_keeps _ h₁)
      exact ih h (by rw [hkept]; exact ensureOrigin_mem ho)

theorem populateRetries_origins {x : Txn} {config : CrawlConfig} {jobId id : Uuid}
    {rows : List String} {s s' : Store} {o : Origin}
    (h : populateRetries url x config jobId rows s = .ok (id, s')) (ho : o ∈ s.origins) :
    o ∈ s'.origins := by
  simp only [populateRetries, bind_ok, exec_ok, pure_ok] at h
  obtain ⟨n, s₁, h₁, _, _, rfl, -, rfl⟩ := h
  show o ∈ s₁.origins
  exact insertRetries_origins h₁ ho

/-- The row of a stored robots file. -/
theorem mem_storeRobots {x : Txn} {key body : String} {s : Store} {o : Origin}
    (ho : o ∈ s.origins) :
    ∃ o' ∈ (storeRobots x key body s).origins, o'.originKey = o.originKey ∧ pace o' = pace o := by
  unfold storeRobots
  refine ⟨_, mem_updateOrigins ho rfl, ?_, ?_⟩
  · split <;> rfl
  · split <;> rfl

theorem remote_storeRobots_origins {x : Txn} {role key body : String} {s s' : Store} {b : Bool}
    {o : Origin} (h : WorkerApi.storeRobots x role key body s = .ok (b, s'))
    (ho : o ∈ s.origins) : ∃ o' ∈ s'.origins, o'.originKey = o.originKey ∧ pace o' = pace o := by
  simp only [WorkerApi.storeRobots, bind_ok, read_ok] at h
  obtain ⟨worker, s₁, h₁, held, _, ⟨-, rfl⟩, h⟩ := h
  obtain rfl := Lifecycle.identity_ok h₁
  split at h
  · simp only [bind_ok, read_ok, exec_ok, pure_ok] at h
    obtain ⟨found, _, ⟨-, rfl⟩, _, _, rfl, -, rfl⟩ := h
    exact mem_storeRobots ho
  · obtain ⟨-, rfl⟩ := pure_ok.mp h
    exact ⟨o, ho, rfl, rfl⟩

/-- A call whose body keeps the rows it finds. -/
theorem OriginStep.of_mem {r : Request} {s : Store} {o : Origin} (ho : o ∈ s.origins)
    (hclaim : granted r s = none) (hreport : report r.call = none)
    (hbody : ∀ b s', r.call.body url r.txn s = .ok (b, s') → o ∈ s'.origins) :
    ∃ o' ∈ (step url r s).origins, o'.originKey = o.originKey ∧ OriginStep url r s o o' := by
  refine @OriginStep.of_row _ _ _ o o hclaim hreport ?_ rfl rfl
  exact commit_snd (P := fun s' : Store => o ∈ s'.origins) ho hbody

/-- The row a remote call leaves. -/
theorem remote_step_origins {x : Txn} {role : String} {call : RemoteCall} {s : Store} {o : Origin}
    (ho : o ∈ s.origins) :
    ∃ o' ∈ (step url ⟨x, .remote role call⟩ s).origins, o'.originKey = o.originKey ∧
      OriginStep url ⟨x, .remote role call⟩ s o o' := by
  cases call with
  | register protocol capabilities =>
      refine OriginStep.of_mem ho rfl rfl fun b s' h => ?_
      obtain ⟨w, h, -⟩ := map_ok.mp h
      have hframe : s'.origins = s.origins := register_frame _ _ _ h
      exact hframe ▸ ho
  | drain =>
      refine OriginStep.of_mem ho rfl rfl fun b s' h => ?_
      have hframe : s'.origins = s.origins := drain_frame _ h
      exact hframe ▸ ho
  | claim capabilities =>
      exact OriginStep.of_claim ho rfl rfl rfl fun g s' h => remote_claim_origins h ho
  | storeRobots key body =>
      cases hbody : WorkerApi.storeRobots x role key body s with
      | error e =>
          exact OriginStep.of_mem ho rfl rfl fun b s' h => by cases hbody.symm.trans h
      | ok p =>
          obtain ⟨b, s'⟩ := p
          have hstep : step url ⟨x, .remote role (.storeRobots key body)⟩ s = s' :=
            step_of_body hbody
          obtain ⟨o', ho', hkey, hpace⟩ := remote_storeRobots_origins hbody ho
          exact OriginStep.of_row rfl rfl (by rw [hstep]; exact ho') hkey hpace
  | complete taskId token artifact result =>
      exact OriginStep.of_report ho rfl rfl (by simp) fun b s' h => complete_origins h ho
  | retry taskId token errorClass errorCode availableAt metadata =>
      exact OriginStep.of_report ho rfl rfl (by simp) fun b s' h => retry_origins h ho
  | heartbeat taskId token => exact OriginStep.of_keeps ho rfl rfl (remote_heartbeat_keeps ..)
  | reserveBrowserNavigation taskId token =>
      exact OriginStep.of_keeps ho rfl rfl (remote_reserveBrowserNavigation_keeps ..)
  | blockRobots taskId token code =>
      exact OriginStep.of_keeps ho rfl rfl (remote_blockRobots_keeps ..)
  | fail taskId token errorClass errorCode metadata =>
      exact OriginStep.of_keeps ho rfl rfl (fail_keeps ..)
  | release taskId token => exact OriginStep.of_keeps ho rfl rfl (release_keeps ..)
  | startLiveSession taskId token backend workerId ttlSeconds code =>
      exact OriginStep.of_keeps ho rfl rfl (startLiveSession_keeps ..).map
  | waitForInput taskId token code => exact OriginStep.of_keeps ho rfl rfl (waitForInput_keeps ..)
  | touchLiveSession id => exact OriginStep.of_keeps ho rfl rfl (touchLiveSession_keeps ..)
  | closeLiveSession id reason => exact OriginStep.of_keeps ho rfl rfl (closeLiveSession_keeps ..)
  | resumeLiveSession id =>
      exact OriginStep.of_keeps ho rfl rfl (remote_resumeLiveSession_keeps ..).map
  | finishLiveSession id => exact OriginStep.of_keeps ho rfl rfl (finishLiveSession_keeps ..)
  | reserveProviderAttempt taskId token route reserved =>
      exact OriginStep.of_keeps ho rfl rfl (reserveProviderAttempt_keeps ..).map
  | finishProviderAttempt attemptId token outcome actual estimated =>
      exact OriginStep.of_keeps ho rfl rfl (finishProviderAttempt_keeps ..)

/-- What one request does to a row. -/
theorem step_origins (r : Request) {s : Store} {o : Origin} (ho : o ∈ s.origins) :
    ∃ o' ∈ (step url r s).origins, o'.originKey = o.originKey ∧ OriginStep url r s o o' := by
  obtain ⟨x, call⟩ := r
  have hplain {f : Store → Store} (h : ∀ s, around (f s) = around s) : Keeps (accepted f) :=
    keeps_exec_bind h <| Steps.pure _
  cases call with
  | submitJob config key =>
      refine OriginStep.of_mem ho rfl rfl fun b s' h => ?_
      obtain ⟨id, h, -⟩ := map_ok.mp h
      exact submitJob_origins h ho
  | populateRetries config jobId rows =>
      refine OriginStep.of_mem ho rfl rfl fun b s' h => ?_
      obtain ⟨id, h, -⟩ := map_ok.mp h
      exact populateRetries_origins h ho
  | environment workers proxyLeases =>
      refine OriginStep.of_mem ho rfl rfl fun b s' h => ?_
      obtain rfl := Lifecycle.accepted_ok h
      exact ho
  | storeRobots key body =>
      obtain ⟨o', ho', hkey, hpace⟩ := @mem_storeRobots x key body s o ho
      exact OriginStep.of_row rfl rfl ho' hkey hpace
  | claimTask workerId capabilities =>
      exact OriginStep.of_claim ho rfl rfl rfl fun g s' h => claimTask_origins h ho
  | completeTask taskId token result =>
      exact OriginStep.of_report ho rfl rfl (by simp) fun b s' h => completeTask_origins h ho
  | retryTask taskId token decision availableAt metadata =>
      exact OriginStep.of_report ho rfl rfl (by simp) fun b s' h => retryTask_origins h ho
  | remote role call => exact remote_step_origins ho
  | requestCancel jobId => exact OriginStep.of_keeps ho rfl rfl (requestCancel_keeps ..)
  | finalizeJobs => exact OriginStep.of_keeps ho rfl rfl (hplain (finalizeJobs_around _))
  | heartbeat taskId token => exact OriginStep.of_keeps ho rfl rfl (heartbeat_keeps ..)
  | reserveBrowserNavigation taskId token =>
      exact OriginStep.of_keeps ho rfl rfl (reserveBrowserNavigation_keeps ..)
  | failTask taskId token decision metadata =>
      exact OriginStep.of_keeps ho rfl rfl (failTask_keeps ..)
  | blockRobots taskId token code => exact OriginStep.of_keeps ho rfl rfl (blockRobots_keeps ..)
  | reapExpiredLeases => exact OriginStep.of_keeps ho rfl rfl (reapExpiredLeases_keeps _).map
  | reserveAcquisitionAttempt taskId token route reservedCost =>
      exact OriginStep.of_keeps ho rfl rfl (reserveAcquisitionAttempt_keeps ..).map
  | finishAcquisitionAttempt attemptId token outcome actualCost costEstimated =>
      exact OriginStep.of_keeps ho rfl rfl (finishAcquisitionAttempt_keeps ..)
  | waitForInputLocal taskId token backend workerId ttlSeconds =>
      exact OriginStep.of_keeps ho rfl rfl (waitForInputLocal_keeps ..).map
  | requestResume id => exact OriginStep.of_keeps ho rfl rfl (hplain fun _ => rfl)
  | touchSession id => exact OriginStep.of_keeps ho rfl rfl (hplain fun _ => rfl)
  | closeCompleted id => exact OriginStep.of_keeps ho rfl rfl (hplain fun _ => rfl)
  | closeSession id reason workerId => exact OriginStep.of_keeps ho rfl rfl (closeSession_keeps ..)
  | expireDue => exact OriginStep.of_keeps ho rfl rfl (hplain (expireDue_around _))
  | resumeLiveSession id workerId =>
      exact OriginStep.of_keeps ho rfl rfl (resumeLiveSession_keeps ..).map

end Origins

end CrawlTrove
