import CrawlTrove.Invariants.Counters

/-!
# Fencing

A call that acts under a lease names a task and a token, or a provider attempt
and a token. Unless the task is leased under exactly this token the call is
rejected and changes nothing (`stale_noop`), so a run may as well leave it out.
-/

namespace CrawlTrove

open Relational Transaction

/-- The task is leased under exactly this token. -/
def Store.leasedUnder (s : Store) (taskId token : Uuid) : Bool :=
  s.tasks.any fun t => t.id = taskId && t.state = .leased && t.leaseToken = some token

namespace Lifecycle

/-! ## Stale calls -/

/-- The lease a call claims to hold. -/
inductive Fence
  | task (taskId token : Uuid)
  | attempt (attemptId token : Uuid)
deriving DecidableEq

/-- The lease is the task's current one. -/
def Fence.current (s : Store) : Fence → Bool
  | .task taskId token => s.leasedUnder taskId token
  | .attempt attemptId token =>
      match s.attempts.find? fun a => a.id = attemptId with
      | none => false
      | some a => s.leasedUnder a.taskId token

/-- The fence of a remote call. -/
def remoteFence : RemoteCall → Option Fence
  | .heartbeat taskId token | .reserveBrowserNavigation taskId token
  | .blockRobots taskId token _ | .fail taskId token _ _ _ | .retry taskId token _ _ _ _
  | .release taskId token | .complete taskId token _ _ | .startLiveSession taskId token _ _ _ _
  | .waitForInput taskId token _ | .reserveProviderAttempt taskId token _ _ =>
      some (.task taskId token)
  | .finishProviderAttempt attemptId token _ _ _ => some (.attempt attemptId token)
  | _ => none

/-- The fence of a call. -/
def fence : Call → Option Fence
  | .heartbeat taskId token | .reserveBrowserNavigation taskId token
  | .completeTask taskId token _ | .retryTask taskId token _ _ _ | .failTask taskId token _ _
  | .blockRobots taskId token _ | .reserveAcquisitionAttempt taskId token _ _
  | .waitForInputLocal taskId token _ _ _ => some (.task taskId token)
  | .finishAcquisitionAttempt attemptId token _ _ _ => some (.attempt attemptId token)
  | .remote _ call => remoteFence call
  | _ => none

/-- The call is fenced by a lease that is not current. -/
def stale (r : Request) (s : Store) : Bool := (fence r.call).any fun f => !f.current s

/-! ## The fences of the two implementations -/

theorem leasedUnder_eq_false {s : Store} {taskId token : Uuid} :
    s.leasedUnder taskId token = false ↔
      ∀ t ∈ s.tasks, ¬(t.id = taskId ∧ t.state = .leased ∧ t.leaseToken = some token) := by
  simp [Store.leasedUnder, Table.any_eq_false]

theorem fencedTask_stale {s : Store} {taskId token : Uuid}
    (h : s.leasedUnder taskId token = false) : s.fencedTask taskId token = none := by
  cases hf : s.fencedTask taskId token with
  | none => rfl
  | some f =>
      obtain ⟨hmem, hid, hleased, htoken, -⟩ := Store.fencedTask_eq_some hf
      exact absurd ⟨hid, hleased, htoken⟩ (leasedUnder_eq_false.mp h f.task hmem)

theorem activeLease_stale {x : Txn} {s : Store} {taskId token : Uuid}
    (h : s.leasedUnder taskId token = false) : activeLease x taskId token s = .ok (none, s) := by
  unfold activeLease
  refine bind_ok.mpr ⟨none, s, read_ok.mpr ⟨fencedTask_stale h, rfl⟩, ?_⟩
  rfl

theorem ownedTask_stale {worker : Worker} {s : Store} {taskId token : Uuid}
    (h : s.leasedUnder taskId token = false) : WorkerApi.ownedTask worker taskId token s = none := by
  refine Table.find?_eq_none.mpr fun t ht => ?_
  have hne := leasedUnder_eq_false.mp h t ht
  by_contra hp
  simp only [Bool.not_eq_false, Bool.and_eq_true, decide_eq_true_eq] at hp
  exact hne ⟨hp.1.1.1, hp.1.1.2, hp.1.2⟩

theorem activeTask_stale {now : Time} {worker : Worker} {s : Store} {taskId token : Uuid}
    (h : s.leasedUnder taskId token = false) :
    WorkerApi.activeTask now worker taskId token s = none := by
  unfold WorkerApi.activeTask
  rw [ownedTask_stale h]

/-! ## Rejection -/

/-- The call is refused and the store is as before. -/
def Refuses (m : Tx Bool) (s : Store) : Prop := ∀ b s', m s = .ok (b, s') → b = false ∧ s' = s

theorem Refuses.of_none {α : Type} {m : Tx (Option α)} {k : Option α → Tx Bool} {s : Store}
    (hm : m s = .ok (none, s)) (hk : k none = pure false) : Refuses (m >>= k) s := by
  intro b s' h
  obtain ⟨r, s₁, h₁, h₂⟩ := bind_ok.mp h
  rw [hm] at h₁
  obtain ⟨rfl, rfl⟩ : none = r ∧ s = s₁ := by simpa using h₁
  rw [hk] at h₂
  obtain ⟨rfl, rfl⟩ := pure_ok.mp h₂
  exact ⟨rfl, rfl⟩

/-- A remote call that looks its lease up right after the worker's identity. -/
theorem Refuses.remote {α : Type} {role : String} {draining : Bool}
    {look : Worker → Store → Option α} {k : Worker → Option α → Tx Bool} {s : Store}
    (hlook : ∀ worker, look worker s = none) (hk : ∀ worker, k worker none = pure false) :
    Refuses (WorkerApi.identity role draining >>= fun worker => read (look worker) >>= k worker)
      s := by
  intro b s' h
  obtain ⟨worker, s₁, h₁, h₂⟩ := bind_ok.mp h
  obtain rfl := identity_ok h₁
  have hread : (read (look worker) : Tx (Option α)) s₁ = .ok (none, s₁) :=
    read_ok.mpr ⟨hlook worker, rfl⟩
  exact Refuses.of_none hread (hk worker) b s' h₂

theorem Refuses.map {α : Type} {m : Tx (Option α)} {s : Store}
    (h : ∀ r s', m s = .ok (r, s') → r = none ∧ s' = s) : Refuses (Option.isSome <$> m) s := by
  intro b s' hb
  obtain ⟨r, hr, rfl⟩ := map_ok.mp hb
  obtain ⟨rfl, hs⟩ := h r s' hr
  exact ⟨rfl, hs⟩

theorem reserveAcquisitionAttempt_stale {x : Txn} {taskId token : Uuid} {route : Route}
    {cost : PyValues} {s s' : Store} {r : Option ReservedAcquisitionAttempt}
    (hs : s.leasedUnder taskId token = false)
    (h : reserveAcquisitionAttempt x taskId token route cost s = .ok (r, s')) :
    r = none ∧ s' = s := by
  unfold reserveAcquisitionAttempt at h
  cases hcost : nativeCost route cost.toNativeValues with
  | error message => simp [hcost] at h
  | ok native =>
      simp only [hcost] at h
      obtain ⟨found, s₁, h₁, h₂⟩ := bind_ok.mp h
      rw [activeLease_stale hs] at h₁
      obtain ⟨rfl, rfl⟩ : none = found ∧ s = s₁ := by simpa using h₁
      obtain ⟨rfl, rfl⟩ := pure_ok.mp h₂
      exact ⟨rfl, rfl⟩

theorem finishAcquisitionAttempt_stale {x : Txn} {attemptId token : Uuid} {outcome : String}
    {cost : PyValues} {estimated : Bool} {s : Store}
    (hs : (Fence.attempt attemptId token).current s = false) :
    Refuses (finishAcquisitionAttempt x attemptId token outcome cost estimated) s := by
  intro b s' h
  simp only [finishAcquisitionAttempt, bind_ok, read_ok] at h
  obtain ⟨found, s₁, ⟨hfound, rfl⟩, h⟩ := h
  cases found with
  | none =>
      obtain ⟨rfl, rfl⟩ := pure_ok.mp h
      exact ⟨rfl, rfl⟩
  | some a =>
      simp only [Fence.current, hfound] at hs
      simp only at h
      split at h
      · obtain ⟨rfl, rfl⟩ := pure_ok.mp h
        exact ⟨rfl, rfl⟩
      · exact Refuses.of_none (activeLease_stale hs) rfl b s' h

theorem startLiveSession_stale {x : Txn} {role : String} {taskId token : Uuid}
    {backend workerId code : String} {ttl : Option ℤ} {s s' : Store} {r : Option LiveSession}
    (hs : s.leasedUnder taskId token = false)
    (h : WorkerApi.startLiveSession x role taskId token backend workerId ttl code s =
      .ok (r, s')) : r = none ∧ s' = s := by
  simp only [WorkerApi.startLiveSession, bind_ok] at h
  obtain ⟨worker, s₁, h₁, h⟩ := h
  obtain rfl := identity_ok h₁
  split at h
  · simp at h
  · simp only [bind_ok, read_ok, activeTask_stale hs] at h
    obtain ⟨found, _, ⟨rfl, rfl⟩, h⟩ := h
    obtain ⟨rfl, rfl⟩ := pure_ok.mp h
    exact ⟨rfl, rfl⟩

theorem reserveProviderAttempt_stale {x : Txn} {role : String} {taskId token : Uuid}
    {route : Route} {reserved : NativeValues} {s s' : Store} {r : Option Uuid}
    (hs : s.leasedUnder taskId token = false)
    (h : WorkerApi.reserveProviderAttempt x role taskId token route reserved s = .ok (r, s')) :
    r = none ∧ s' = s := by
  simp only [WorkerApi.reserveProviderAttempt, bind_ok] at h
  obtain ⟨worker, s₁, h₁, h⟩ := h
  obtain rfl := identity_ok h₁
  cases hcost : nativeCost route reserved with
  | error message => simp [hcost] at h
  | ok native =>
      simp only [hcost] at h
      split at h
      · simp at h
      · simp only [bind_ok, read_ok, activeTask_stale hs] at h
        obtain ⟨found, _, ⟨rfl, rfl⟩, h⟩ := h
        obtain ⟨rfl, rfl⟩ := pure_ok.mp h
        exact ⟨rfl, rfl⟩

/-- The attempt a remote worker finds is the one its id names. -/
theorem attempt_stale {s : Store} {attemptId token : Uuid} {p : Attempt → Bool} {a : Attempt}
    (hs : (Fence.attempt attemptId token).current s = false)
    (h : s.attempts.find? (fun a => a.id = attemptId && a.leaseToken = some token && p a) =
      some a) : s.leasedUnder a.taskId token = false := by
  obtain ⟨ha, hp⟩ := Table.find?_eq_some h
  simp only [Bool.and_eq_true, decide_eq_true_eq] at hp
  have hfind : s.attempts.find? (fun a => a.id = attemptId) = some a :=
    Table.find?_eq_of_mem ha (by simp [hp.1.1]) fun b hb hid =>
      attempt_eq_of_id hb ha ((of_decide_eq_true hid).trans hp.1.1.symm)
  simpa only [Fence.current, hfind] using hs

theorem finishProviderAttempt_stale {x : Txn} {role : String} {attemptId token : Uuid}
    {outcome : Option String} {actual : NativeValues} {estimated : Bool} {s : Store}
    (hs : (Fence.attempt attemptId token).current s = false) :
    Refuses (WorkerApi.finishProviderAttempt x role attemptId token outcome actual estimated)
      s := by
  intro b s' h
  simp only [WorkerApi.finishProviderAttempt, bind_ok] at h
  obtain ⟨worker, s₁, h₁, h⟩ := h
  obtain rfl := identity_ok h₁
  split at h
  · simp at h
  · simp only [bind_ok, read_ok] at h
    obtain ⟨found, _, ⟨hfound, rfl⟩, h⟩ := h
    cases found with
    | none =>
        obtain ⟨rfl, rfl⟩ := pure_ok.mp h
        exact ⟨rfl, rfl⟩
    | some a =>
        have hstale := attempt_stale hs hfound
        simp only at h
        split at h
        · obtain ⟨rfl, rfl⟩ := pure_ok.mp h
          exact ⟨rfl, rfl⟩
        · cases hroute : a.route with
          | none => simp [hroute] at h
          | some route =>
              simp only [hroute] at h
              split at h
              · simp at h
              · simp only [bind_ok, read_ok, activeTask_stale hstale] at h
                obtain ⟨_, _, ⟨rfl, rfl⟩, h⟩ := h
                obtain ⟨rfl, rfl⟩ := pure_ok.mp h
                exact ⟨rfl, rfl⟩

/-- Parking under a stale lease raises. -/
theorem waitForInputLocal_stale {x : Txn} {taskId token : Uuid} {backend workerId : String}
    {ttl : ℤ} {s s' : Store} {session : LiveSession} (hs : s.leasedUnder taskId token = false)
    (h : waitForInputLocal x taskId token backend workerId ttl s = .ok (session, s')) : False := by
  unfold waitForInputLocal at h
  split at h
  · simp at h
  · simp only [bind_ok, read_ok, fencedTask_stale hs] at h
    obtain ⟨found, _, ⟨rfl, -⟩, h⟩ := h
    simp at h

theorem remote_refuses {x : Txn} {role : String} {call : RemoteCall} {f : Fence} {s : Store}
    (hf : remoteFence call = some f) (hs : f.current s = false) : Refuses (call.body x role) s := by
  cases call <;> cases hf
  case heartbeat taskId token =>
    exact Refuses.remote (fun _ => activeTask_stale hs) fun _ => rfl
  case reserveBrowserNavigation taskId token =>
    exact Refuses.remote (fun _ => activeTask_stale hs) fun _ => rfl
  case blockRobots taskId token code =>
    exact Refuses.remote (fun _ => activeTask_stale hs) fun _ => rfl
  case fail taskId token errorClass errorCode metadata =>
    exact Refuses.remote (fun _ => ownedTask_stale hs) fun _ => rfl
  case retry taskId token errorClass errorCode availableAt metadata =>
    exact Refuses.remote (fun _ => ownedTask_stale hs) fun _ => rfl
  case release taskId token =>
    exact Refuses.remote (fun _ => ownedTask_stale hs) fun _ => rfl
  case complete taskId token artifact report =>
    exact Refuses.remote (fun _ => activeTask_stale hs) fun _ => rfl
  case startLiveSession taskId token backend workerId ttl code =>
    exact Refuses.map fun _ _ => startLiveSession_stale hs
  case waitForInput taskId token code =>
    intro b s' h
    simp only [RemoteCall.body, WorkerApi.waitForInput, bind_ok, pure_ok] at h
    obtain ⟨worker, s₁, h₁, r, s₂, h₂, rfl, rfl⟩ := h
    obtain rfl := identity_ok h₁
    obtain ⟨rfl, hs'⟩ := startLiveSession_stale hs h₂
    exact ⟨rfl, hs'⟩
  case reserveProviderAttempt taskId token route reserved =>
    exact Refuses.map fun _ _ => reserveProviderAttempt_stale hs
  case finishProviderAttempt attemptId token outcome actual estimated =>
    exact finishProviderAttempt_stale hs

theorem body_refuses {url : UrlIdentity} {x : Txn} {call : Call} {f : Fence} {s : Store}
    (hf : fence call = some f) (hs : f.current s = false) : Refuses (call.body url x) s := by
  cases call with
  | heartbeat taskId token =>
      cases hf
      exact Refuses.of_none (activeLease_stale hs) rfl
  | reserveBrowserNavigation taskId token =>
      cases hf
      exact Refuses.of_none (activeLease_stale hs) rfl
  | completeTask taskId token result =>
      cases hf
      exact Refuses.of_none (activeLease_stale hs) rfl
  | retryTask taskId token decision availableAt metadata =>
      cases hf
      exact Refuses.of_none (activeLease_stale hs) rfl
  | failTask taskId token decision metadata =>
      cases hf
      exact Refuses.of_none (activeLease_stale hs) rfl
  | blockRobots taskId token code =>
      cases hf
      exact Refuses.of_none (activeLease_stale hs) rfl
  | reserveAcquisitionAttempt taskId token route cost =>
      cases hf
      exact Refuses.map fun _ _ => reserveAcquisitionAttempt_stale hs
  | finishAcquisitionAttempt attemptId token outcome cost estimated =>
      cases hf
      exact finishAcquisitionAttempt_stale hs
  | waitForInputLocal taskId token backend workerId ttl =>
      cases hf
      intro b s' h
      obtain ⟨session, h, -⟩ := map_ok.mp h
      exact (waitForInputLocal_stale hs h).elim
  | remote role call => exact remote_refuses hf hs
  | _ => cases hf

/-- A stale call changes nothing and is rejected. -/
theorem stale_noop {url : UrlIdentity} {r : Request} {s : Store} (h : stale r s = true) :
    step url r s = s ∧ rejected url r s := by
  simp only [stale, Option.any_eq_true, Bool.not_eq_true'] at h
  obtain ⟨f, hf, hs⟩ := h
  have hrefuses : Refuses (r.call.body url r.txn) s := body_refuses hf hs
  constructor
  · rcases @step_cases url r s with hsame | ⟨b, hbody⟩
    · exact hsame
    · exact (hrefuses b _ hbody).2
  · intro hreply
    cases (hrefuses true _ (reply_ok hreply)).1

/-! ## Runs without stale calls -/

/-- The calls of the run that are not stale when their turn comes. -/
def withoutStale (url : UrlIdentity) : Store → List Request → List Request
  | _, [] => []
  | s, r :: requests =>
      if stale r s then withoutStale url s requests
      else r :: withoutStale url (step url r s) requests

theorem run_withoutStale {url : UrlIdentity} (s : Store) (requests : List Request) :
    run url s (withoutStale url s requests) = run url s requests := by
  induction requests generalizing s with
  | nil => rfl
  | cons r requests ih =>
      unfold withoutStale
      split
      · rename_i hstale
        have hstep : step url r s = s := (stale_noop hstale).1
        calc run url s (withoutStale url s requests) = run url s requests := ih s
          _ = run url (step url r s) requests := by rw [hstep]
      · exact ih (step url r s)

/-- A task that has ended keeps its state to the end of the run. -/
theorem terminal_stays {url : UrlIdentity} {s : Store} {t : Task} (ht : t ∈ s.tasks)
    (hend : t.state.terminal = true) (requests : List Request) :
    ∃ t' ∈ (run url s requests).tasks, t'.id = t.id ∧ t'.state = t.state := by
  refine run_preserves (P := fun _ _ => True) (E := fun _ => True)
    (I := fun s => ∃ t' ∈ s.tasks, t'.id = t.id ∧ t'.state = t.state)
    (fun _ _ _ _ _ _ => trivial) ?_ (stepsMeet_of_forall fun _ _ _ => trivial) ⟨t, ht, rfl, rfl⟩
  rintro s e s' - ha ⟨u, hu, hid, hstate⟩
  obtain ⟨u', hu', -, hmove⟩ := ha.task_new hu
  exact ⟨u', hu', hmove.id.trans hid, (hmove.terminal (by rw [hstate]; exact hend)).trans hstate⟩

/-- The terminal and the succeeded tasks are counted, each once. -/
theorem ends_counted {url : UrlIdentity} {s : Store} (h : Reachable url s) (jobId : Uuid) :
    Balanced jobId Job.terminalCount (inState TaskState.terminal) s ∧
      Balanced jobId Job.succeededCount (inState (· = .succeeded)) s := by
  have hinv := reachable_invariant
    (I := fun s => WellFormed s ∧ Balanced jobId Job.terminalCount (inState TaskState.terminal) s ∧
      Balanced jobId Job.succeededCount (inState (· = .succeeded)) s)
    (fun s e s' ha hs => ⟨hs.1.preserved ha,
      hs.2.1.preserved (terminal_gauge (fun _ => True) jobId) trivial ha hs.1,
      hs.2.2.preserved (succeeded_gauge (fun _ => True) jobId) trivial ha hs.1⟩)
    (fun s hs => ⟨.of_blank hs, .of_blank hs, .of_blank hs⟩) h
  exact hinv.2

/-- Stale workers have no effect: a stale call changes nothing and is rejected,
a run leads where it leads without its stale calls, a task has one result at
most, and the terminal and the succeeded count of a job are the numbers of its
tasks that have ended and succeeded, which they do for good. -/
theorem stale_no_effect (url : UrlIdentity) (s₀ : Store) (h₀ : s₀.blank)
    (requests : List Request) :
    let s := run url s₀ requests
    (∀ r, stale r s = true → step url r s = s ∧ rejected url r s) ∧
    run url s₀ (withoutStale url s₀ requests) = s ∧
    (∀ a ∈ s.results, ∀ b ∈ s.results, a.taskId = b.taskId → a = b) ∧
    (∀ j ∈ s.jobs,
      j.terminalCount = (s.tasks.count fun t => t.jobId = j.id && t.state.terminal) ∧
      j.succeededCount = (s.tasks.count fun t => t.jobId = j.id && t.state = .succeeded)) ∧
    ∀ more, ∀ t ∈ s.tasks, t.state.terminal = true →
      ∃ t' ∈ (run url s more).tasks, t'.id = t.id ∧ t'.state = t.state := by
  intro s
  have hreachable : Reachable url s := ⟨s₀, h₀, requests, rfl⟩
  refine ⟨fun r hr => stale_noop hr, run_withoutStale s₀ requests,
    fun a ha b hb hsame => result_eq_of_task ha hb hsame, fun j hj => ?_,
    fun more t ht hend => terminal_stays ht hend more⟩
  obtain ⟨hterminal, hsucceeded⟩ := ends_counted hreachable j.id
  exact ⟨(hterminal j hj rfl).trans (count_inState s j.id TaskState.terminal).symm,
    (hsucceeded j hj rfl).trans (count_inState s j.id (· = .succeeded)).symm⟩

/-- A block under the token of the lease that completed the task is deleted. -/
theorem stale_no_effect_block :
    run Sample.identity {} (withoutStale Sample.identity {} (Sample.crawl ++ [Sample.block])) =
      run Sample.identity {} (Sample.crawl ++ [Sample.block]) :=
  (stale_no_effect Sample.identity {} (by simp [Store.blank]) (Sample.crawl ++ [Sample.block])).2.1

end Lifecycle

end CrawlTrove
