import CrawlTrove.Lifecycle.Settlement

/-!
# Provider calls as actions

Reserving a provider call moves the ledger by its reservation and inserts an
attempt; settling it moves the ledger back and closes the attempt. An attempt
whose lease is gone is settled at its full reservation. Core and remote
workers share the statements.
-/

namespace CrawlTrove

open Relational Transaction Numerals

namespace Lifecycle

/-! ## Ledger statements -/

theorem Usage.adjust_moves {u : Usage} {reserved consumed : Meter → ℚ} {m : Meter}
    (hm : u.meter = m) (h : u.admits (reserved m) (consumed m) = true) :
    Moves reserved consumed u (u.adjust (reserved m) (consumed m)) := by
  subst hm
  unfold Usage.adjust
  rw [dif_pos h]
  exact ⟨rfl, rfl, rfl⟩

/-- A committed `UPDATE crawl_provider_usage` moves the one row of the meter. -/
theorem adjustUsage_ok {jobId : Uuid} {provider : Provider} {m : Meter}
    {reserved consumed : Meter → ℚ} {s s' : Store} {b : PUnit}
    (h : adjustUsage jobId provider m (reserved m) (consumed m) s = .ok (b, s')) :
    ∃ T, s' = { s with usage := T } ∧
      s.usage.Changed (onLedger jobId provider [m]) (Moves reserved consumed) T := by
  simp only [adjustUsage, bind_ok, read_ok] at h
  obtain ⟨found, s₁, ⟨hfound, rfl⟩, h⟩ := h
  cases found with
  | none => simp at h
  | some u =>
      obtain ⟨hu, hkey⟩ := Table.find?_eq_some hfound
      simp only [Bool.and_eq_true, decide_eq_true_eq] at hkey
      obtain ⟨⟨hjob, hprovider⟩, hmeter⟩ := hkey
      simp only at h
      split at h
      · rename_i hadmits
        rw [exec_ok] at h
        refine ⟨_, h.symm, ?_⟩
        have hrow : ∀ v : Usage, (decide (v.jobId = jobId) && decide (v.provider = provider) &&
            decide (v.meter = m)) = onLedger jobId provider [m] v := fun v => by simp [onLedger]
        refine Table.Changed.congr (fun v _ => hrow v) ?_
        refine Table.Changed.of_update (fun v hv hsel => ?_) (Usage.key_adjust _ _)
        simp only [Bool.and_eq_true, decide_eq_true_eq] at hsel
        obtain rfl := usage_eq_of_key hv hu (hsel.1.1.trans hjob.symm)
          (hsel.1.2.trans hprovider.symm) (hsel.2.trans hmeter.symm)
        exact Usage.adjust_moves hmeter hadmits
      · simp at h

theorem onLedger_cons (jobId : Uuid) (provider : Provider) (m : Meter) (meters : List Meter)
    (u : Usage) : onLedger jobId provider (m :: meters) u =
      (onLedger jobId provider [m] u || onLedger jobId provider meters u) := by
  simp only [onLedger, List.contains_cons, List.contains_nil, Bool.or_false]
  cases decide (u.jobId = jobId) <;> cases decide (u.provider = provider) <;> simp

/-- The statements for all meters of a route move the rows of the route. -/
theorem adjustMeters_ok {jobId : Uuid} {provider : Provider} {reserved consumed : Meter → ℚ}
    {b : PUnit} {meters : List Meter} (hnodup : meters.Nodup) {s s' : Store}
    (h : adjustMeters jobId provider reserved consumed meters s = .ok (b, s')) :
    ∃ T, s' = { s with usage := T } ∧
      s.usage.Changed (onLedger jobId provider meters) (Moves reserved consumed) T := by
  induction meters generalizing s with
  | nil =>
      simp only [adjustMeters, pure_ok] at h
      obtain ⟨-, rfl⟩ := h
      exact ⟨s.usage, rfl, Table.Changed.refl fun u _ hu => by simp [onLedger] at hu⟩
  | cons m meters ih =>
      simp only [adjustMeters, bind_ok] at h
      obtain ⟨_, s₁, h₁, h₂⟩ := h
      obtain ⟨T₁, rfl, hT₁⟩ := adjustUsage_ok h₁
      obtain ⟨T₂, rfl, hT₂⟩ := ih (List.nodup_cons.mp hnodup).2 h₂
      refine ⟨T₂, rfl, ?_⟩
      have hboth := Table.Changed.union (fun u u' hk => ?_) (fun u _ hu => ?_) hT₁ hT₂
      · exact hboth.congr fun u _ => (onLedger_cons ..).symm
      · have hk' : (u'.jobId, u'.provider, u'.meter) = (u.jobId, u.provider, u.meter) := hk
        simp only [Prod.mk.injEq] at hk'
        simp [onLedger, hk']
      · have hfresh := (List.nodup_cons.mp hnodup).1
        simp only [onLedger, List.contains_cons, List.contains_nil, Bool.or_false,
          Bool.and_eq_true, decide_eq_true_eq, beq_iff_eq] at hu
        simp [onLedger, hu.2, hfresh]

/-! ## Settling -/

/-- An attempt that still holds its reservation. -/
structure Outstanding (s : Store) (a : Attempt) : Prop where
  mem : a ∈ s.attempts
  token : a.leaseToken.isSome = true
  unfinished : a.finishedAt = none

/-- The rest of the list is still outstanding once another attempt is closed. -/
theorem Outstanding.other {s s' : Store} {a b : Attempt} {R : Attempt → Attempt → Prop}
    (hb : Outstanding s b) (hne : b.id ≠ a.id)
    (hchange : s.attempts.Changed (fun c => c.id = a.id) R s'.attempts) : Outstanding s' b :=
  ⟨hchange.mem_keep hb.mem (by simpa using hne), hb.token, hb.unfinished⟩

/-- A surviving cost reads as it is. -/
theorem loads_amount {c : Cost} {route : Route} {reserved : Meter → Numeral}
    (h : nativeCost route (c.loads route).toNativeValues = .ok reserved) (hc : c.Survives) :
    ∀ m ∈ route.meters, (reserved m).value = c.amount m := by
  intro m hm
  obtain rfl := nativeCost_eq_numeral h
  obtain ⟨n, hn, hvalue⟩ := Option.map_eq_some_iff.mp (hc m)
  simp [NativeValues.numeral, Cost.loads, Cost.amount, hm, hn, hvalue]

/-- Closing an abandoned attempt once the ledger has moved. -/
theorem closeAbandoned_consumes {x : Txn} {a : Attempt} {route : Route}
    {reserved : Meter → Numeral} {s s' : Store} {T : Table Usage} {b : PUnit}
    (ha : Outstanding s a) (hroute : a.route = some route)
    (hreads : nativeCost route (a.reservedCost.loads route).toNativeValues = .ok reserved)
    (hT : s.usage.Changed (onLedger a.jobId route.provider route.meters)
      (Moves (fun m => -(reserved m).value) fun m => (reserved m).value) T)
    (h : (exec <| Store.updateAttempts (fun b => b.id = a.id && b.finishedAt.isNone) fun b =>
        { b with
          finishedAt := some x.now
          actualCost := { native := reserved }
          outcome := some "abandoned"
          errorCode := some "lease_inactive"
          costEstimated := true } : Tx PUnit) { s with usage := T } = .ok (b, s')) :
    Consumes a reserved reserved s s' := by
  rw [exec_ok] at h
  subst h
  refine
    { attempt := ⟨ha.mem, ha.token, ha.unfinished⟩
      reads := fun hc r hr => ?_
      cost := fun r hr => ?_
      jobs := rfl, tasks := rfl, leases := rfl
      attempts := ?_
      usage := ⟨route, a.jobId, hroute, Or.inl rfl, hT⟩ }
  · obtain rfl : route = r := by simpa [hroute] using hr
    exact loads_amount hreads hc
  · obtain rfl : route = r := by simpa [hroute] using hr
    exact (nativeCost_ok hreads).2
  -- the row is still open, so the second condition of the update selects the same row
  have hrow : ∀ c ∈ s.attempts, (decide (c.id = a.id) && c.finishedAt.isNone) =
      decide (c.id = a.id) := by
    intro c hc
    by_cases hid : c.id = a.id
    · obtain rfl := attempt_eq_of_id hc ha.mem hid
      simp [ha.unfinished]
    · simp [hid]
  refine Table.Changed.congr hrow ?_
  refine Table.Changed.of_update fun c _ _ => ?_
  exact ⟨rfl, rfl, rfl, rfl, rfl, rfl, rfl⟩

/-- An abandoned reservation is consumed in full, as it reads. -/
theorem consumeAbandoned_ok {x : Txn} {a : Attempt} {s s' : Store} {b : PUnit}
    (ha : Outstanding s a) (h : consumeAbandoned x a s = .ok (b, s')) :
    ∃ reserved, Consumes a reserved reserved s s' := by
  cases hroute : a.route with
  | none => simp [consumeAbandoned, hroute] at h
  | some route =>
      simp only [consumeAbandoned, hroute] at h
      cases hreads : nativeCost route (a.reservedCost.loads route).toNativeValues with
      | error message => simp [hreads] at h
      | ok reserved =>
          simp only [hreads] at h
          refine ⟨reserved, ?_⟩
          split at h
          · obtain ⟨_, s₁, h₁, h₂⟩ := bind_ok.mp h
            obtain ⟨T, rfl, hT⟩ := adjustMeters_ok route.meters_nodup h₁
            exact closeAbandoned_consumes ha hroute hreads hT h₂
          · rename_i hlocal
            have hnone : route.meters = [] := by
              cases route <;> simp_all [Route.provider, Route.meters]
            refine closeAbandoned_consumes ha hroute hreads
              (Table.Changed.refl fun u _ hu => ?_) h
            simp [onLedger, hnone] at hu

theorem consumeAll_trace {ok : Event → Prop} (hok : ok .ordinary) {x : Txn}
    {attempts : List Attempt} {s s' : Store} {b : PUnit}
    (hout : ∀ a ∈ attempts, Outstanding s a)
    (hdistinct : attempts.Pairwise fun a b => a.id ≠ b.id)
    (h : consumeAll x attempts s = .ok (b, s')) : Trace Action ok s s' := by
  induction attempts generalizing s with
  | nil =>
      obtain ⟨-, rfl⟩ := pure_ok.mp h
      exact Trace.refl
  | cons a attempts ih =>
      obtain ⟨_, s₁, h₁, h₂⟩ := bind_ok.mp h
      obtain ⟨reserved, hconsume⟩ := consumeAbandoned_ok (hout a (by simp)) h₁
      obtain ⟨hne, hrest⟩ := List.pairwise_cons.mp hdistinct
      refine (Trace.single hok (Action.consume a _ _ hconsume)).trans (ih (fun c hc => ?_) hrest h₂)
      exact (hout c (by simp [hc])).other (hne c hc).symm hconsume.attempts

/-- `_reconcile_abandoned_acquisition_attempts` settles outstanding attempts. -/
theorem reconcileAbandoned_trace {ok : Event → Prop} (hok : ok .ordinary) {x : Txn}
    {only : Option Uuid} {s s' : Store} {b : PUnit}
    (h : reconcileAbandoned x only s = .ok (b, s')) : Trace Action ok s s' := by
  obtain ⟨attempts, s₁, h₁, h₂⟩ := bind_ok.mp h
  obtain ⟨rfl, rfl⟩ := read_ok.mp h₁
  refine consumeAll_trace hok (fun a ha => ?_) ?_ h₂
  · obtain ⟨hmem, habandoned⟩ := Table.mem_select.mp ha
    simp only [Store.abandoned, Bool.and_eq_true] at habandoned
    exact ⟨hmem, habandoned.1.1.2, by simpa using habandoned.1.1.1⟩
  · have hkeys : (s.attempts.select (s.abandoned x only)).Pairwise
        fun a b => Clashes a b = false := s.attempts.unique.filter _
    refine hkeys.imp fun {a b} hab hid => ?_
    simp [Clashes, Keyed.clash, Keyed.key, hid] at hab

/-- A settlement with the actual cost, under the fence. -/
theorem settleAttempt_ok {x : Txn} {a : Attempt} {t : Task} {route : Route}
    {reserved actual : Meter → Numeral} {outcome : Option String} {estimated : Bool}
    {s s' : Store} {b : PUnit} (ha : Outstanding s a) (ht : t ∈ s.tasks ∧ t.id = a.taskId)
    (hroute : a.route = some route)
    (hreads : a.reservedCost.Survives →
      ∀ m ∈ route.meters, (reserved m).value = a.reservedCost.amount m)
    (hactual : ∀ m, m ∉ route.meters → actual m = 0)
    (h : settleAttempt x t.jobId a route reserved actual outcome estimated s = .ok (b, s')) :
    Consumes a reserved actual s s' := by
  obtain ⟨_, s₁, h₁, h₂⟩ := bind_ok.mp h
  obtain ⟨T, rfl, hT⟩ := adjustMeters_ok route.meters_nodup h₁
  rw [exec_ok] at h₂
  subst h₂
  refine
    { attempt := ⟨ha.mem, ha.token, ha.unfinished⟩
      reads := fun hc r hr => ?_
      cost := fun r hr => ?_
      jobs := rfl, tasks := rfl, leases := rfl
      attempts := ?_
      usage := ⟨route, t.jobId, hroute, Or.inr ⟨t, ht.1, ht.2, rfl⟩, hT⟩ }
  · obtain rfl : route = r := by simpa [hroute] using hr
    exact hreads hc
  · obtain rfl : route = r := by simpa [hroute] using hr
    exact hactual
  · refine Table.Changed.of_update fun c _ _ => ?_
    exact ⟨rfl, rfl, rfl, rfl, rfl, rfl, rfl⟩

/-! ## Reserving -/

/-- A committed reservation: the caps allowed it, the ledger covered it, and
the attempt row is new. -/
theorem reserve_ok {id : Uuid} {f : FencedTask} {route : Route} {workerId : Option String}
    {cost : Meter → Numeral} {earlier : ℕ} {s s₁ s₂ : Store} {b b' : PUnit} (hf : Fenced s f)
    (hallowed : s.attemptAllowed f.job.config f.task.id route = true)
    (hcost : (∀ m, 0 ≤ (cost m).value) ∧ ∀ m, m ∉ route.meters → cost m = 0)
    (h₁ : adjustMeters f.task.jobId route.provider (fun m => (cost m).value) (fun _ => 0)
      route.meters s = .ok (b, s₁))
    (h₂ : (attempt .integrityViolation (Store.insertAttempt
      (providerAttempt id f.task route workerId f.token cost earlier)) : Tx PUnit) s₁ =
        .ok (b', s₂)) :
    ∃ a, Reserves f.job f.task a route s s₂ ∧ a.reservedCost.native = cost := by
  obtain ⟨T, rfl, hT⟩ := adjustMeters_ok route.meters_nodup h₁
  rw [attempt_ok] at h₂
  obtain ⟨U, hU, rfl⟩ := Option.map_eq_some_iff.mp h₂
  refine ⟨providerAttempt id f.task route workerId f.token cost earlier, ?_, rfl⟩
  exact
    { job := ⟨hf.job_mem, hf.job_id⟩
      task := ⟨hf.mem, hf.leased⟩
      attempt := ⟨rfl, rfl, rfl, rfl, hf.token.symm, rfl, rfl, rfl⟩
      cost := hcost
      allowed := hallowed
      jobs := rfl, tasks := rfl, leases := rfl
      attempts := hU
      usage := hT }

/-- What is reserved survives when the values that were passed do. -/
theorem survives_of_values {v : NativeValues} {c : Cost} {cost : Meter → Numeral} {route : Route}
    (hcost : nativeCost route v = .ok cost) (hc : c.native = cost) (hv : v.Survives) :
    c.Survives := by
  obtain rfl := nativeCost_eq_numeral hcost
  intro m
  rw [hc]
  exact hv.numeral m

/-! ## The common beginning of fenced operations -/

/-- A lease of a cancelled or expired job ends; any other passes. -/
theorem rejectInactiveLease_ok {ok : Event → Prop} (hok : ok .ordinary) {x : Txn} {f : FencedTask}
    {s s' : Store} {b : Bool} (hf : Fenced s f)
    (h : rejectInactiveLease x f s = .ok (b, s')) :
    (b = true ∧ Trace Action ok s s') ∨
      (b = false ∧ s' = s ∧ f.job.cancelRequestedAt = none ∧ x.now < f.job.deadlineAt) := by
  unfold rejectInactiveLease at h
  split at h
  · obtain ⟨_, s₁, h₁, h⟩ := bind_ok.mp h
    obtain ⟨_, s₂, h₂, h⟩ := bind_ok.mp h
    obtain ⟨rfl, rfl⟩ := pure_ok.mp h
    obtain rfl := exec_ok.mp h₁
    have hexit : ok (exitEvent f .cancelled) := hok
    exact Or.inl ⟨rfl, (terminalize_trace hok hexit hf (Or.inl rfl)).trans
      (reconcileAbandoned_trace hok h₂)⟩
  · rename_i hflag
    split at h
    · obtain ⟨_, s₁, h₁, h⟩ := bind_ok.mp h
      obtain ⟨_, s₂, h₂, h⟩ := bind_ok.mp h
      obtain ⟨rfl, rfl⟩ := pure_ok.mp h
      obtain rfl := exec_ok.mp h₁
      have hexit : ok (exitEvent f .permanentFailed) := hok
      exact Or.inl ⟨rfl, (terminalize_trace hok hexit hf (Or.inr (Or.inl rfl))).trans
        (reconcileAbandoned_trace hok h₂)⟩
    · rename_i hdeadline
      obtain ⟨rfl, rfl⟩ := pure_ok.mp h
      exact Or.inr ⟨rfl, rfl, by simpa using hflag, by simpa using hdeadline⟩

/-- The current lease of an active job. -/
structure Active (now : Time) (s : Store) (f : FencedTask) : Prop extends Fenced s f where
  uncancelled : f.job.cancelRequestedAt = none
  timely : now < f.job.deadlineAt

/-- What `activeLease` returns and leaves behind. -/
theorem activeLease_ok {ok : Event → Prop} (hok : ok .ordinary) {x : Txn} {taskId token : Uuid}
    {s s' : Store} {r : Option FencedTask} (h : activeLease x taskId token s = .ok (r, s')) :
    (r = none ∧ Trace Action ok s s') ∨
      ∃ f, r = some f ∧ s' = s ∧ Active x.now s f ∧ f.task.id = taskId ∧ f.token = token := by
  simp only [activeLease, bind_ok, read_ok] at h
  obtain ⟨found, s₁, ⟨hfound, rfl⟩, h⟩ := h
  cases found with
  | none =>
      obtain ⟨rfl, rfl⟩ := pure_ok.mp h
      exact Or.inl ⟨rfl, Trace.refl⟩
  | some f =>
      obtain ⟨hf, hid, htoken⟩ := Fenced.of_fencedTask hfound
      simp only [bind_ok] at h
      obtain ⟨b, s₂, h₂, h⟩ := h
      rcases rejectInactiveLease_ok hok hf h₂ with ⟨rfl, htrace⟩ | ⟨rfl, rfl, hcancel, htime⟩
      · rw [if_pos rfl] at h
        obtain ⟨rfl, rfl⟩ := pure_ok.mp h
        exact Or.inl ⟨rfl, htrace⟩
      · rw [if_neg Bool.false_ne_true] at h
        obtain ⟨rfl, rfl⟩ := pure_ok.mp h
        exact Or.inr ⟨f, rfl, rfl, ⟨hf, hcancel, htime⟩, hid, htoken⟩

example : (run Sample.identity {} Sample.scrape).usage.rows.map Usage.reservedValue = [1] := by
  decide +kernel

end Lifecycle

end CrawlTrove
