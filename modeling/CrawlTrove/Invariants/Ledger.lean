import CrawlTrove.Invariants.Permits

/-!
# The provider ledger

A ledger row reserves what the unfinished provider attempts on its job and
provider have reserved of its meter, and has consumed what the finished ones
cost. Reserving and settling move both sides alike; a settled attempt is never
touched again; and the caps a reservation checks bound the provider attempts
of a task for good.
-/

namespace CrawlTrove

open Relational Numerals

namespace Lifecycle

/-! ## The invariant -/

/-- A provider attempt of the job with the provider. -/
def onProvider (jobId : Uuid) (provider : Provider) (a : Attempt) : Bool :=
  a.jobId = jobId && a.provider = some provider && a.leaseToken.isSome

/-- What an unfinished attempt has reserved. -/
def openCost (jobId : Uuid) (provider : Provider) (meter : Meter) (a : Attempt) : ℚ :=
  if onProvider jobId provider a && a.finishedAt.isNone then a.reservedCost.amount meter else 0

/-- What a finished attempt has cost. -/
def spentCost (jobId : Uuid) (provider : Provider) (meter : Meter) (a : Attempt) : ℚ :=
  if onProvider jobId provider a && a.finishedAt.isSome then a.actualCost.amount meter else 0

/-- The row agrees with the attempts. -/
structure Reconciled (T : Table Attempt) (u : Usage) : Prop where
  reserved : u.reservedValue = T.total (openCost u.jobId u.provider u.meter)
  consumed : u.consumedValue = T.total (spentCost u.jobId u.provider u.meter)

/-- The rows of the job agree with the attempts. -/
def Conserved (jobId : Uuid) (s : Store) : Prop :=
  ∀ u ∈ s.usage, u.jobId = jobId → Reconciled s.attempts u

/-- What the provider attempts of the job have reserved reads as it is. -/
def Legible (jobId : Uuid) (s : Store) : Prop :=
  ∀ a ∈ s.attempts, a.jobId = jobId → a.leaseToken.isSome = true → a.reservedCost.Survives

theorem Reconciled.congr {T U : Table Attempt} {u : Usage}
    (hopen : U.total (openCost u.jobId u.provider u.meter) =
      T.total (openCost u.jobId u.provider u.meter))
    (hspent : U.total (spentCost u.jobId u.provider u.meter) =
      T.total (spentCost u.jobId u.provider u.meter))
    (h : Reconciled T u) : Reconciled U u :=
  ⟨h.reserved.trans hopen.symm, h.consumed.trans hspent.symm⟩

/-! ## Attempts the ledger does not see -/

/-- A worker attempt is on no provider. -/
theorem onProvider_worker {jobId : Uuid} {provider : Provider} {a : Attempt}
    (h : a.leaseToken = none) : onProvider jobId provider a = false := by
  simp [onProvider, h]

theorem openCost_worker {jobId : Uuid} {provider : Provider} {meter : Meter} {a : Attempt}
    (h : a.leaseToken = none) : openCost jobId provider meter a = 0 := by
  simp [openCost, onProvider_worker h]

theorem spentCost_worker {jobId : Uuid} {provider : Provider} {meter : Meter} {a : Attempt}
    (h : a.leaseToken = none) : spentCost jobId provider meter a = 0 := by
  simp [spentCost, onProvider_worker h]

/-- Closing the attempt of a lease leaves every ledger row reconciled. -/
theorem Conserved.closed {jobId : Uuid} {s s' : Store} (hs : WellFormed s)
    (h : Conserved jobId s) {t : Task} {d c : ℤ} (ht : t ∈ s.tasks) (hocc : Occupied t)
    (hattempts : s.attempts.Changed (currentAttempt t) (ClosedWith d c) s'.attempts)
    (husage : s'.usage = s.usage) : Conserved jobId s' := by
  intro u hu hjob
  rw [husage] at hu
  have hworker : ∀ a ∈ s.attempts, currentAttempt t a = true → a.leaseToken = none := by
    intro a ha hp
    simp only [currentAttempt, Bool.and_eq_true, decide_eq_true_eq] at hp
    exact (hs.current_worker ht hocc ha hp).worker
  refine (h u hu hjob).congr ?_ ?_
  · refine hattempts.total_eq fun a a' ha hp _ hto => ?_
    have htoken := hworker a ha hp
    rw [openCost_worker htoken, openCost_worker (hto.leaseToken.trans htoken)]
  · refine hattempts.total_eq fun a a' ha hp _ hto => ?_
    have htoken := hworker a ha hp
    rw [spentCost_worker htoken, spentCost_worker (hto.leaseToken.trans htoken)]

theorem Conserved.frame {jobId : Uuid} {s s' : Store} (h : Conserved jobId s)
    (hattempts : s'.attempts = s.attempts) (husage : s'.usage = s.usage) : Conserved jobId s' := by
  unfold Conserved
  rw [hattempts, husage]
  exact h

/-- No attempt belongs to a job that is not there yet. -/
theorem onProvider_fresh {s s' : Store} {j : Job} {seed : Task} (hs : WellFormed s)
    (h : Submits j seed s s') (provider : Provider) :
    ∀ a ∈ s.attempts, onProvider j.id provider a = false := by
  intro a ha
  obtain ⟨t, ht, -, hjob⟩ := hs.attempt_task a ha
  obtain ⟨k, hk, hkid⟩ := hs.task_job t ht
  have hfresh := Table.insert?_fresh h.jobs k hk
  have hne : a.jobId ≠ j.id := by
    intro hid
    simp [Clashes, Keyed.clash, Keyed.key, hkid, hjob, hid] at hfresh
  simp [onProvider, hne]

/-! ## Reserving and settling -/

/-- The ledger rows a change of the route's meters selects, and the others. -/
theorem usage_old {s s' : Store} {jobId : Uuid} {provider : Provider} {meters : List Meter}
    {reserved consumed : Meter → ℚ}
    (h : s.usage.Changed (onLedger jobId provider meters) (Moves reserved consumed) s'.usage)
    {u' : Usage} (hu' : u' ∈ s'.usage) :
    ∃ u ∈ s.usage, u'.jobId = u.jobId ∧ u'.provider = u.provider ∧ u'.meter = u.meter ∧
      ((u.jobId = jobId ∧ u.provider = provider ∧ u.meter ∈ meters ∧
          u'.reservedValue = u.reservedValue + reserved u.meter ∧
          u'.consumedValue = u.consumedValue + consumed u.meter) ∨
        (¬(u.jobId = jobId ∧ u.provider = provider ∧ u.meter ∈ meters) ∧
          u'.reservedValue = u.reservedValue ∧ u'.consumedValue = u.consumedValue)) := by
  obtain ⟨u, hu, hkey, h'⟩ := h.mem_old hu'
  have hkey' : (u'.jobId, u'.provider, u'.meter) = (u.jobId, u.provider, u.meter) := hkey
  simp only [Prod.mk.injEq] at hkey'
  refine ⟨u, hu, hkey'.1, hkey'.2.1, hkey'.2.2, ?_⟩
  rcases h' with ⟨hp, hmoves⟩ | ⟨hp, rfl⟩
  · simp only [onLedger, Bool.and_eq_true, decide_eq_true_eq, List.contains_iff_mem] at hp
    exact Or.inl ⟨hp.1.1, hp.1.2, hp.2, hmoves.reserved, hmoves.consumed⟩
  · refine Or.inr ⟨fun hsel => ?_, rfl, rfl⟩
    simp [onLedger, hsel.1, hsel.2.1, hsel.2.2] at hp

theorem Conserved.reserve {jobId : Uuid} {j : Job} {t : Task} {a : Attempt} {route : Route}
    {s s' : Store} (h : Conserved jobId s) (ha : Reserves j t a route s s') :
    Conserved jobId s' := by
  intro u' hu' hmine
  obtain ⟨u, hu, hjob, hprovider, hmeter, hmoved⟩ := usage_old ha.usage hu'
  obtain ⟨hajob, -, -, haprovider, -, hatoken, hafin, hacost⟩ := ha.attempt
  -- the new attempt is open, so it counts on the reserved side only
  have hspent : spentCost u.jobId u.provider u.meter a = 0 := by
    simp [spentCost, hafin]
  have hopen : openCost u.jobId u.provider u.meter a =
      if u.jobId = t.jobId ∧ u.provider = route.provider then a.reservedCost.amount u.meter
      else 0 := by
    simp only [openCost, onProvider, hajob, haprovider, hatoken, hafin, Option.some.injEq]
    by_cases hsel : t.jobId = u.jobId ∧ route.provider = u.provider
    · simp [hsel.1, hsel.2]
    · have hsel' : ¬(u.jobId = t.jobId ∧ u.provider = route.provider) :=
        fun h => hsel ⟨h.1.symm, h.2.symm⟩
      rw [if_neg hsel']
      simp only [not_and] at hsel
      by_cases hj : t.jobId = u.jobId
      · simp [hj, hsel hj]
      · simp [hj]
  have hrec := h u hu (hjob.symm.trans hmine)
  constructor
  · rw [hjob, hprovider, hmeter, Table.total_insert? ha.attempts, hopen, ← hrec.reserved]
    rcases hmoved with ⟨h₁, h₂, -, hres, -⟩ | ⟨hne, hres, -⟩
    · rw [hres, if_pos ⟨h₁, h₂⟩]
    · rw [hres]
      split
      · -- a row of the provider for a meter the route does not have
        rename_i hsel
        rw [Cost.amount, ha.cost.2 u.meter fun hm => hne ⟨hsel.1, hsel.2, hm⟩,
          Numeral.value_zero, add_zero]
      · rw [add_zero]
  · rw [hjob, hprovider, hmeter, Table.total_insert? ha.attempts, hspent, add_zero,
      ← hrec.consumed]
    rcases hmoved with ⟨-, -, -, -, hcon⟩ | ⟨-, -, hcon⟩
    · rw [hcon, add_zero]
    · exact hcon

/-- The attempt moves from what is open to what is spent. -/
theorem Consumes.totals {a : Attempt} {released actual : Meter → Numeral} {s s' : Store}
    (ha : Consumes a released actual s s') (jobId : Uuid) (provider : Provider) (meter : Meter) :
    s'.attempts.total (openCost jobId provider meter) =
        s.attempts.total (openCost jobId provider meter) -
          (if onProvider jobId provider a then a.reservedCost.amount meter else 0) ∧
      s'.attempts.total (spentCost jobId provider meter) =
        s.attempts.total (spentCost jobId provider meter) +
          (if onProvider jobId provider a then (actual meter).value else 0) := by
  obtain ⟨hmem, -, hopen⟩ := ha.attempt
  have hselect : s.attempts.select (fun b => b.id = a.id) = [a] :=
    Table.select_eq_singleton hmem (by simp) fun b hb hp =>
      attempt_eq_of_id hb hmem (of_decide_eq_true hp)
  have hopenOld : openCost jobId provider meter a =
      if onProvider jobId provider a then a.reservedCost.amount meter else 0 := by
    simp [openCost, hopen]
  have hspentOld : spentCost jobId provider meter a = 0 := by
    simp [spentCost, hopen]
  constructor
  · obtain ⟨a', -, -, ⟨-, -, -, -, -, hfinished, -⟩, htotal⟩ :=
      ha.attempts.total_single (openCost jobId provider meter) hselect
    have hnew : openCost jobId provider meter a' = 0 := by
      have hclosed : a'.finishedAt.isNone = false := by
        rw [← Option.not_isSome, hfinished]
        rfl
      simp [openCost, hclosed]
    rw [htotal, hnew, hopenOld, zero_sub, sub_eq_add_neg]
  · obtain ⟨a', -, -, ⟨hjob, -, hprovider, htoken, -, hfinished, hactual⟩, htotal⟩ :=
      ha.attempts.total_single (spentCost jobId provider meter) hselect
    have hnew : spentCost jobId provider meter a' =
        if onProvider jobId provider a then (actual meter).value else 0 := by
      simp [spentCost, onProvider, hjob, hprovider, htoken, hfinished, hactual, Cost.amount]
    rw [htotal, hnew, hspentOld, sub_zero]

/-- Settling releases what was reserved when that reads as it is. -/
theorem Conserved.consume {jobId : Uuid} {a : Attempt} {released actual : Meter → Numeral}
    {s s' : Store} (hs : WellFormed s) (h : Conserved jobId s) (hlegible : Legible jobId s)
    (ha : Consumes a released actual s s') : Conserved jobId s' := by
  intro u' hu' hmine
  obtain ⟨hmem, htoken, hfin⟩ := ha.attempt
  obtain ⟨route, ledgerId, hroute, hjobId, husage⟩ := ha.usage
  obtain ⟨route', hroute', hprovider, -, hoff, -⟩ := (hs.provider a hmem htoken).route
  obtain rfl : route' = route := by rw [hroute'] at hroute; exact Option.some.inj hroute
  -- The task's job is the attempt's.
  have hjob : ledgerId = a.jobId := by
    rcases hjobId with hsame | ⟨t, ht, hid, hjob⟩
    · exact hsame
    · obtain ⟨t', ht', hid', hjob'⟩ := hs.attempt_task a hmem
      rw [← hjob, task_eq_of_id ht ht' (hid.trans hid'.symm), hjob']
  subst hjob
  have hcost := ha.cost route' hroute'
  obtain ⟨u, hu, hujob, huprovider, humeter, hmoved⟩ := usage_old husage hu'
  have hrec := h u hu (hujob.symm.trans hmine)
  obtain ⟨hopenTotal, hspentTotal⟩ := ha.totals u.jobId u.provider u.meter
  have hon : onProvider u.jobId u.provider a = true ↔
      u.jobId = a.jobId ∧ u.provider = route'.provider := by
    simp only [onProvider, hprovider, htoken, Bool.and_true, Bool.and_eq_true, decide_eq_true_eq,
      Option.some.injEq]
    exact ⟨fun h => ⟨h.1.symm, h.2.symm⟩, fun h => ⟨h.1.symm, h.2.symm⟩⟩
  constructor
  · rw [hujob, huprovider, humeter, hopenTotal, ← hrec.reserved, sub_eq_add_neg]
    rcases hmoved with ⟨h₁, h₂, hm, hres, -⟩ | ⟨hne, hres, -⟩
    · -- what is released is the amount that was reserved, as it survives being read again
      have hsurvives := hlegible a hmem (h₁.symm.trans (hujob.symm.trans hmine)) htoken
      rw [hres, if_pos (hon.mpr ⟨h₁, h₂⟩), ha.reads hsurvives route' hroute' u.meter hm]
    · rw [hres]
      split
      · rename_i hsel
        obtain ⟨h₁, h₂⟩ := hon.mp hsel
        rw [Cost.amount, hoff u.meter fun hm => hne ⟨h₁, h₂, hm⟩, Numeral.value_zero, neg_zero,
          add_zero]
      · rw [neg_zero, add_zero]
  · rw [hujob, huprovider, humeter, hspentTotal, ← hrec.consumed]
    rcases hmoved with ⟨h₁, h₂, -, -, hcon⟩ | ⟨hne, -, hcon⟩
    · rw [hcon, if_pos (hon.mpr ⟨h₁, h₂⟩)]
    · rw [hcon]
      split
      · rename_i hsel
        obtain ⟨h₁, h₂⟩ := hon.mp hsel
        rw [hcost u.meter fun hm => hne ⟨h₁, h₂, hm⟩, Numeral.value_zero, add_zero]
      · rw [add_zero]

/-- Every action keeps the ledger of a legible job reconciled. -/
theorem Conserved.preserved {jobId : Uuid} {s : Store} {e : Event} {s' : Store}
    (ha : Action s e s') (hs : WellFormed s) (hlegible : Legible jobId s) (h : Conserved jobId s) :
    Conserved jobId s' := by
  cases ha with
  | idle ha => exact h.frame ha.attempts ha.usage
  | submit j seed ha =>
      intro u hu hmine
      rw [ha.attempts]
      rcases ha.usage u hu with hu | ⟨hjob, hres, hcon⟩
      · exact h u hu hmine
      · have hfresh := onProvider_fresh hs ha u.provider
        constructor
        · rw [hres, hjob]
          exact (Table.total_zero fun a ha => by simp [openCost, hfresh a ha]).symm
        · rw [hcon, hjob]
          exact (Table.total_zero fun a ha => by simp [spentCost, hfresh a ha]).symm
  | lease j t token bytes artifacts resumed ha =>
      have hattempts := ha.attempts
      cases resumed with
      | true => exact h.frame hattempts ha.usage
      | false =>
          -- the attempt of a worker has no lease token, and the ledger does not see it
          obtain ⟨a, -, -, -, htoken, -, hinsert⟩ := hattempts
          intro u hu hmine
          rw [ha.usage] at hu
          refine (h u hu hmine).congr ?_ ?_
          · rw [Table.total_insert? hinsert, openCost_worker htoken, add_zero]
          · rw [Table.total_insert? hinsert, spentCost_worker htoken, add_zero]
  | settle e t σ downloaded artifacts counted hblocked hfailed hqueued ha =>
      exact h.closed hs ha.task.1 (Or.inl ha.task.2) ha.attempts ha.usage
  | drain jobId σ ha => exact h.frame ha.attempts ha.usage
  | expire e t σ counted hfailed ha =>
      exact h.closed hs ha.task.1 (Or.inr ha.task.2) ha.attempts ha.usage
  | flag jobId now ha => exact h.frame ha.attempts ha.usage
  | close jobId state ha => exact h.frame ha.attempts ha.usage
  | discover e j parent child hrevived ha => exact h.frame ha.attempts ha.usage
  | plant child ha => exact h.frame ha.attempts ha.usage
  | recount jobId n ha => exact h.frame ha.attempts ha.usage
  | reserve e j t a route hunread ha => exact h.reserve ha
  | consume a released actual ha => exact h.consume hs hlegible ha

/-- Reservations stay as they are, and only a labelled one is not legible. -/
theorem Legible.preserved {jobId : Uuid} {s : Store} {e : Event} {s' : Store} (ha : Action s e s')
    (he : e ≠ .unread jobId) (h : Legible jobId s) : Legible jobId s' := by
  intro a' ha' hjob htoken
  rcases ha.attempt_old ha' with ⟨a, hmem, hterms, -⟩ | harrives
  · simp only [Attempt.terms, Prod.mk.injEq] at hterms
    obtain ⟨-, hajob, -, -, -, -, hatoken, hreserved⟩ := hterms
    rw [hreserved]
    exact h a hmem (hajob.symm.trans hjob) (hatoken ▸ htoken)
  · cases harrives with
    | worker t task h =>
        rw [h.1] at htoken
        cases htoken
    | provider j t route hunread h =>
        by_contra hlost
        exact he ((hunread hlost).trans (by rw [← h.attempt.1, hjob]))

/-! ## Attempt caps -/

/-- The task has at most as many provider attempts as its caps allow. -/
def Capped (s : Store) : Prop :=
  ∀ t ∈ s.tasks, ∀ j ∈ s.jobs, j.id = t.jobId →
    ((s.providerAttempts t.id).length : ℤ) ≤ attemptCap j.config ∧
      ∀ route, ((s.routeAttempts t.id route).length : ℤ) ≤ min 2 (attemptCap j.config)

/-- Counting rows by columns that never change. -/
theorem count_terms {s : Store} {T : Table Attempt} {p : Attempt → Bool}
    (hp : ∀ a a', Attempt.terms a' = Attempt.terms a → p a' = p a)
    (h : s.attempts.Changed (fun _ => true)
      (fun a a' => Attempt.terms a' = Attempt.terms a ∧ AttemptMove s a a') T) :
    T.count p = s.attempts.count p := by
  rw [Table.count_eq_total, Table.count_eq_total]
  refine h.total_eq fun a a' _ _ _ hto => ?_
  rw [hp a a' hto.1]

theorem count_insert {T U : Table Attempt} {a : Attempt} (h : T.insert? a = some U)
    (p : Attempt → Bool) : U.count p = T.count p + if p a then 1 else 0 := by
  rw [Table.count_eq_total, Table.count_eq_total, Table.total_insert? h]

/-- The two counts a cap is about, as counts of rows. -/
def ofTask (taskId : Uuid) (a : Attempt) : Bool := a.taskId = taskId && a.leaseToken.isSome

def ofRoute (taskId : Uuid) (route : Route) (a : Attempt) : Bool :=
  a.taskId = taskId && a.route = some route && a.leaseToken.isSome

theorem ofTask_terms (taskId : Uuid) (a a' : Attempt) (h : Attempt.terms a' = Attempt.terms a) :
    ofTask taskId a' = ofTask taskId a := by
  simp only [Attempt.terms, Prod.mk.injEq] at h
  simp [ofTask, h]

theorem ofRoute_terms (taskId : Uuid) (route : Route) (a a' : Attempt)
    (h : Attempt.terms a' = Attempt.terms a) : ofRoute taskId route a' = ofRoute taskId route a := by
  simp only [Attempt.terms, Prod.mk.injEq] at h
  simp [ofRoute, h]

/-- What an action adds to a count of provider attempts. -/
theorem Action.count_attempts {s : Store} {e : Event} {s' : Store} (ha : Action s e s')
    {p : Attempt → Bool} (hp : ∀ a a', Attempt.terms a' = Attempt.terms a → p a' = p a)
    (hworker : ∀ a : Attempt, a.leaseToken = none → p a = false) :
    s'.attempts.count p = s.attempts.count p ∨
      ∃ j t a route, Reserves j t a route s s' ∧ p a = true ∧
        s'.attempts.count p = s.attempts.count p + 1 := by
  rcases ha.attempts with hmoves | ⟨a, hinsert, harrives⟩
  · exact Or.inl (count_terms hp hmoves)
  · rw [count_insert hinsert]
    cases harrives with
    | worker t task h => exact Or.inl (by simp [hworker a h.1])
    | provider j t route hunread h =>
        by_cases hpa : p a = true
        · exact Or.inr ⟨j, t, a, route, h, hpa, by rw [if_pos hpa]⟩
        · exact Or.inl (by simp [hpa])

theorem attemptCap_nonneg (config : CrawlConfig) : 0 ≤ attemptCap config := by
  have := config.acquisition.maxAttempts_ok
  unfold attemptCap
  omega

/-- No provider attempt belongs to a task that has just arrived. -/
theorem count_arrived {s : Store} (hs : WellFormed s) {T : Table Task} {child : Task}
    (h : s.tasks.insert? child = some T) {p : Attempt → Bool}
    (hp : ∀ a, p a = true → a.taskId = child.id) : s.attempts.count p = 0 := by
  rw [Table.count_eq_total]
  refine Table.total_zero fun a ha => if_neg fun hpa => ?_
  obtain ⟨t, ht, hid, -⟩ := hs.attempt_task a ha
  have hfresh := Table.insert?_fresh h t ht
  simp [Clashes, Keyed.clash, Keyed.key, hid.trans (hp a hpa)] at hfresh

theorem Capped.preserved {s : Store} {e : Event} {s' : Store} (ha : Action s e s')
    (hs : WellFormed s) (h : Capped s) : Capped s' := by
  intro t' ht' j' hj' hid'
  have htask : ∀ p : Attempt → Bool, (∀ a, p a = true → ofTask t'.id a = true) →
      (∀ a a', Attempt.terms a' = Attempt.terms a → p a' = p a) → ∀ cap : ℤ, 0 ≤ cap →
      (∀ t ∈ s.tasks, t.id = t'.id → t.jobId = t'.jobId → ∀ j ∈ s.jobs, j.id = t.jobId →
        j.config = j'.config → s.attempts.count p ≤ cap) →
      (∀ j t a route, Reserves j t a route s s' → p a = true → j ∈ s.jobs → j.id = j'.id →
        s.attempts.count p < cap) →
      s'.attempts.count p ≤ cap := by
    intro p hofTask hterms cap hcap hold hreserve
    have hle : s.attempts.count p ≤ cap := by
      rcases ha.task_old ht' with ⟨t, ht, -, hmove⟩ | harrives
      · obtain ⟨j, hj, hjid⟩ := hs.task_job t ht
        obtain ⟨k, hk, hterms', -⟩ := ha.job_new hj
        have hkid : k.id = j'.id :=
          (congrArg Prod.fst hterms').trans (hjid.trans (hmove.jobId.symm.trans hid'.symm))
        obtain rfl := job_eq_of_id hk hj' hkid
        have hconfig : k.config = j.config := congrArg (fun x => x.2.1) hterms'
        exact hold t ht hmove.id.symm hmove.jobId.symm j hj hjid hconfig.symm
      · have hinsert : s.tasks.insert? t' = some s'.tasks := by
          cases harrives with
          | seed j h => exact h.tasks
          | page j parent h => exact h.tasks
          | plant h => exact h.tasks
        rw [count_arrived hs hinsert fun a hpa => ?_]
        · exact hcap
        · have := hofTask a hpa
          simp only [ofTask, Bool.and_eq_true, decide_eq_true_eq] at this
          exact this.1
    have hworker : ∀ a : Attempt, a.leaseToken = none → p a = false := by
      intro a hnone
      by_contra hne
      have hmine := hofTask a (by simpa using hne)
      simp [ofTask, hnone] at hmine
    rcases ha.count_attempts hterms hworker with hsame | ⟨j, t, a, route, hr, hpa, hone⟩
    · rw [hsame]
      exact hle
    · have hmine := hofTask a hpa
      simp only [ofTask, Bool.and_eq_true, decide_eq_true_eq] at hmine
      have htid : t.id = t'.id := hr.attempt.2.1.symm.trans hmine.1
      have hjid : j.id = j'.id := by
        have ht : t ∈ s'.tasks := hr.tasks ▸ hr.task.1
        rw [hr.job.2, task_eq_of_id ht ht' htid, hid']
      have hlt := hreserve j t a route hr hpa hr.job.1 hjid
      rw [hone]
      omega
  have hconfig : ∀ j ∈ s.jobs, j.id = j'.id → j.config = j'.config := by
    intro j hj hjid
    obtain ⟨k, hk, hterms, -⟩ := ha.job_new hj
    have hkid : k.id = j'.id := (congrArg Prod.fst hterms).trans hjid
    rw [← job_eq_of_id hk hj' hkid]
    exact (congrArg (fun x => x.2.1) hterms).symm
  have hcap := attemptCap_nonneg j'.config
  constructor
  · refine htask (ofTask t'.id) (fun _ h => h) (ofTask_terms t'.id) _ hcap ?_ ?_
    · intro t ht hid _ j hj hjid hcfg
      rw [← hcfg, ← hid]
      exact (h t ht j hj hjid).1
    · intro j t a route hr hpa hj hjid
      have hallowed := hr.allowed
      simp only [Store.attemptAllowed, Bool.and_eq_true, decide_eq_true_eq] at hallowed
      simp only [ofTask, Bool.and_eq_true, decide_eq_true_eq] at hpa
      rw [← hconfig j hj hjid, ← hpa.1, hr.attempt.2.1]
      exact hallowed.1
  · intro route
    refine htask (ofRoute t'.id route) (fun a h => ?_) (ofRoute_terms t'.id route) _
      (by omega) ?_ ?_
    · simp only [ofRoute, Bool.and_eq_true, decide_eq_true_eq] at h
      simp [ofTask, h.1.1, h.2]
    · intro t ht hid _ j hj hjid hcfg
      rw [← hcfg, ← hid]
      exact (h t ht j hj hjid).2 route
    · intro j t a route' hr hpa hj hjid
      have hallowed := hr.allowed
      simp only [Store.attemptAllowed, Bool.and_eq_true, decide_eq_true_eq] at hallowed
      simp only [ofRoute, Bool.and_eq_true, decide_eq_true_eq] at hpa
      have hroute : route' = route := by
        have := hr.attempt.2.2.1
        rw [hpa.1.2] at this
        exact (Option.some.inj this).symm
      rw [← hconfig j hj hjid, ← hpa.1.1, hr.attempt.2.1, ← hroute]
      exact hallowed.2

/-! ## Settled once -/

/-- A settled attempt is never touched again. -/
theorem Action.settled_stays {s : Store} {e : Event} {s' : Store} (ha : Action s e s')
    (hs : WellFormed s) {a : Attempt} (hmem : a ∈ s.attempts) (htoken : a.leaseToken.isSome = true)
    (hfin : a.finishedAt.isSome = true) : a ∈ s'.attempts := by
  obtain ⟨a', ha', -, hmove⟩ := ha.attempt_new hmem
  cases hmove with
  | keep h => exact h ▸ ha'
  | close t downloaded artifacts task state current h =>
      rw [(hs.current_worker task state hmem current).worker] at htoken
      cases htoken
  | consume actual outstanding cost finished h =>
      rw [outstanding.2] at hfin
      cases hfin

theorem step_settled {url : UrlIdentity} {s : Store} (hs : WellFormed s) (r : Request)
    {a : Attempt} (hmem : a ∈ s.attempts) (htoken : a.leaseToken.isSome = true)
    (hfin : a.finishedAt.isSome = true) : a ∈ (step url r s).attempts := by
  have h := (step_trace url r s).preserves
    (I := fun s => WellFormed s ∧ a ∈ s.attempts) ?_ ⟨hs, hmem⟩
  · exact h.2
  · rintro s e s' - ha ⟨hs, hmem⟩
    exact ⟨hs.preserved ha, ha.settled_stays hs hmem htoken hfin⟩

/-! ## What it says of the store -/

/-- A well-formed store with capped attempts. -/
def Settled (s : Store) : Prop := WellFormed s ∧ Capped s

theorem Settled.preserved {s : Store} {e : Event} {s' : Store} (ha : Action s e s')
    (h : Settled s) : Settled s' :=
  ⟨h.1.preserved ha, h.2.preserved ha h.1⟩

theorem Settled.of_blank {s : Store} (h : s.blank) : Settled s := by
  obtain ⟨-, htasks, -⟩ := id h
  exact ⟨.of_blank h, fun t ht => by simp [htasks] at ht⟩

/-- In every reachable state attempts are settled once and the caps hold. -/
theorem settled_of_reachable {url : UrlIdentity} {s : Store} (h : Reachable url s) : Settled s :=
  reachable_invariant (fun _ _ _ ha hs => hs.preserved ha) (fun _ hs => .of_blank hs) h

/-- What the ledger of a job relies on. -/
structure Sheet (jobId : Uuid) (s : Store) : Prop where
  wellFormed : WellFormed s
  legible : Legible jobId s
  conserved : Conserved jobId s

theorem Sheet.preserved {jobId : Uuid} {s : Store} {e : Event} {s' : Store} (ha : Action s e s')
    (he : e ≠ .unread jobId) (h : Sheet jobId s) : Sheet jobId s' where
  wellFormed := h.wellFormed.preserved ha
  legible := h.legible.preserved ha he
  conserved := h.conserved.preserved ha h.wellFormed h.legible

theorem Sheet.of_blank {jobId : Uuid} {s : Store} (h : s.blank) : Sheet jobId s := by
  obtain ⟨-, -, -, -, hattempts, husage, -⟩ := id h
  exact ⟨.of_blank h, fun a ha => by simp [hattempts] at ha, fun u hu => by simp [husage] at hu⟩

/-- In a run that reserves for the job only what reads as it is, its ledger
agrees with its attempts and stays within its limits, attempts are settled
once, and the caps hold. -/
theorem ledger_conserved (url : UrlIdentity) (jobId : Uuid) (s₀ : Store) (h₀ : s₀.blank)
    (requests : List Request)
    (hP : StepsMeet (step url) (fun r s => ¬Request.ReservesUnread r s jobId) s₀ requests) :
    let s := run url s₀ requests
    (∀ u ∈ s.usage, u.jobId = jobId →
      u.reservedValue = ((s.attempts.select fun a => onProvider jobId u.provider a &&
        a.finishedAt.isNone).map fun a => a.reservedCost.amount u.meter).sum ∧
      u.consumedValue = ((s.attempts.select fun a => onProvider jobId u.provider a &&
        a.finishedAt.isSome).map fun a => a.actualCost.amount u.meter).sum ∧
      u.reservedValue + u.consumedValue ≤ u.limitValue) ∧
    (∀ r, ∀ a ∈ s.attempts, a.leaseToken.isSome = true → a.finishedAt.isSome = true →
      a ∈ (step url r s).attempts) ∧
    ∀ t ∈ s.tasks, ∀ j ∈ s.jobs, j.id = t.jobId →
      ((s.attempts.select fun a => a.taskId = t.id && a.leaseToken.isSome).length : ℤ) ≤
        min 4 j.config.acquisition.maxAttempts ∧
      ∀ route, ((s.attempts.select fun a =>
          a.taskId = t.id && a.route = some route && a.leaseToken.isSome).length : ℤ) ≤
        min 2 (min 4 j.config.acquisition.maxAttempts) := by
  intro s
  have hsettled : Settled s := settled_of_reachable ⟨s₀, h₀, requests, rfl⟩
  have hsheet : Sheet jobId s := by
    refine run_preserves (E := (· ≠ .unread jobId)) (fun r s e hr _ he => ?_)
      (fun s e s' he ha hs => hs.preserved ha he) hP (.of_blank h₀)
    rintro rfl
    exact hr he
  refine ⟨fun u hu hmine => ?_, fun r a ha => step_settled hsettled.1 r ha, hsettled.2⟩
  have hrec := hsheet.conserved u hu hmine
  subst hmine
  refine ⟨?_, ?_, u.within_limit⟩
  · rw [hrec.reserved, ← Table.total_ite]
    rfl
  · rw [hrec.consumed, ← Table.total_ite]
    rfl

/-- A reserved credit is a credit of an unfinished attempt. -/
theorem ledger_conserved_scrape :
    let s := run Sample.identity {} Sample.scrape
    ∃ u ∈ s.usage, u.reservedValue = 1 ∧
      ((s.attempts.select fun a => onProvider 1 u.provider a &&
        a.finishedAt.isNone).map fun a => a.reservedCost.amount u.meter).sum = 1 := by
  intro s
  obtain ⟨u, hu, hjob, hone⟩ : ∃ u ∈ s.usage, u.jobId = 1 ∧ u.reservedValue = 1 := by
    decide +kernel
  have hledger := ledger_conserved Sample.identity 1 {} (by simp [Store.blank]) Sample.scrape
    (stepsMeet_of_forall fun r hr s => ?_)
  · exact ⟨u, hu, hone, (hledger.1 u hu hjob).1.symm.trans hone⟩
  · rintro ⟨role, taskId, token, route, reserved, worker, f, hcall, -⟩
    simp only [Sample.scrape, List.mem_cons, List.not_mem_nil, or_false] at hr
    rcases hr with rfl | rfl | rfl <;> cases hcall

/-- A remote worker reserves a little more than one credit, and the job is
cancelled: one credit is released, and the rest stays reserved for nothing. -/
theorem ledger_drift :
    let s := run Sample.identity {} (Sample.abandon ⟨100000000000000000001, 20⟩)
    ∃ u ∈ s.usage, u.reservedValue = 1 / 10 ^ 20 ∧
      ((s.attempts.select fun a => onProvider u.jobId u.provider a &&
        a.finishedAt.isNone).map fun a => a.reservedCost.amount u.meter).sum = 0 := by
  decide +kernel

/-- With a little less than one credit more would be released than is
reserved, and the cancel is rolled back. -/
example : (run Sample.identity {} (Sample.abandon ⟨99999999999999999999, 20⟩)).jobs.rows.map
    Job.cancelRequestedAt = [none] := by
  decide +kernel

end Lifecycle

end CrawlTrove
