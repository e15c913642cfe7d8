import CrawlTrove.Invariants.Budget

/-!
# Origin permits

The permits are exactly the leases: as sets of task, origin and token the rows
of `crawl_origin_leases` and the leased rows of `crawl_tasks` agree. A lease
adds the same element to both, a settlement removes the same element from
both, and nothing else touches either; a lease is granted only for an origin
without a permit, so no two leases share one.
-/

namespace CrawlTrove

open Relational

namespace Lifecycle

/-! ## The two sets -/

/-- Who holds which origin under which token. -/
structure Holding where
  taskId : Uuid
  originKey : String
  token : Option Uuid

def Task.holding (t : Task) : Holding := ⟨t.id, t.originKey, t.leaseToken⟩

def OriginLease.holding (l : OriginLease) : Holding := ⟨l.taskId, l.originKey, some l.leaseToken⟩

/-- What the leased tasks hold. -/
def held (s : Store) : Set Holding :=
  {x | ∃ t ∈ s.tasks, t.state = .leased ∧ Task.holding t = x}

/-- What the permit rows record. -/
def permits (s : Store) : Set Holding :=
  {x | ∃ l ∈ s.originLeases, OriginLease.holding l = x}

/-- The permits are the leases, and no two of them share an origin. -/
structure Permitted (s : Store) : Prop where
  exact : permits s = held s
  alone : ∀ x ∈ held s, ∀ y ∈ held s, x.originKey = y.originKey → x = y

/-! ## What actions do to them -/

theorem Task.To.holding {spec : Task → Task} {t t' : Task} (h : Task.To spec t t')
    (hspec : Task.holding (spec t) = Task.holding t) : Task.holding t' = Task.holding t :=
  (h.get Task.holding fun _ => rfl).trans hspec

/-- Rows that neither gain nor lose a lease. -/
theorem held_of_changed {s s' : Store} {p : Task → Bool} {R : Task → Task → Prop}
    (h : s.tasks.Changed p R s'.tasks) (hR : ∀ t t', t ∈ s.tasks → p t = true → R t t' →
      (t'.state = .leased ↔ t.state = .leased) ∧
        (t.state = .leased → Task.holding t' = Task.holding t)) :
    held s' = held s := by
  ext x
  constructor
  · rintro ⟨t', ht', hleased, rfl⟩
    obtain ⟨t, ht, -, h'⟩ := h.mem_old ht'
    rcases h' with ⟨hp, hto⟩ | ⟨-, rfl⟩
    · obtain ⟨hiff, hsame⟩ := hR t t' ht hp hto
      exact ⟨t, ht, hiff.mp hleased, (hsame (hiff.mp hleased)).symm⟩
    · exact ⟨t', ht, hleased, rfl⟩
  · rintro ⟨t, ht, hleased, rfl⟩
    obtain ⟨t', ht', -, h'⟩ := h.mem_new ht
    rcases h' with ⟨hp, hto⟩ | ⟨-, rfl⟩
    · obtain ⟨hiff, hsame⟩ := hR t t' ht hp hto
      exact ⟨t', ht', hiff.mpr hleased, hsame hleased⟩
    · exact ⟨t', ht', hleased, rfl⟩

theorem held_of_insert {s s' : Store} {child : Task}
    (h : s.tasks.insert? child = some s'.tasks) (hchild : child.state = .pending) :
    held s' = held s := by
  ext x
  constructor
  · rintro ⟨t, ht, hleased, rfl⟩
    rcases (Table.mem_of_insert? h).mp ht with ht | rfl
    · exact ⟨t, ht, hleased, rfl⟩
    · rw [hchild] at hleased
      cases hleased
  · rintro ⟨t, ht, hleased, rfl⟩
    exact ⟨t, (Table.mem_of_insert? h).mpr (Or.inl ht), hleased, rfl⟩

theorem held_of_drained {s s' : Store} {p : Task → Bool} {σ : TaskState}
    (hσ : σ = .permanentFailed ∨ σ = .cancelled) (h : s.tasks.Changed p (Drained σ) s'.tasks)
    (hp : ∀ t ∈ s.tasks, p t = true → t.state ≠ .leased) : held s' = held s := by
  refine held_of_changed h fun t t' ht hpt hd => ?_
  have hfree := hp t ht hpt
  have hended : t'.state ≠ .leased := by
    rw [drained_state hd]
    rcases hσ with rfl | rfl <;> simp
  exact ⟨⟨fun h => absurd h hended, fun h => absurd h hfree⟩, fun h => absurd h hfree⟩

theorem held_of_leases {j : Job} {t : Task} {token : Uuid} {bytes artifacts : ℤ} {resumed : Bool}
    {s s' : Store} (h : Leases j t token bytes artifacts resumed s s') :
    held s' = insert ⟨t.id, t.originKey, some token⟩ (held s) := by
  have hfree : t.state ≠ .leased := by
    have hstate := h.state
    cases resumed with
    | true => rw [hstate]; simp
    | false => rcases hstate with hst | hst <;> rw [hst] <;> simp
  ext x
  constructor
  · rintro ⟨t', ht', hleased, rfl⟩
    obtain ⟨u, hu, -, h'⟩ := h.tasks.mem_old ht'
    rcases h' with ⟨hid, hto⟩ | ⟨-, rfl⟩
    · obtain rfl := task_eq_of_id hu h.task (of_decide_eq_true hid)
      exact Or.inl (hto.get Task.holding fun _ => rfl)
    · exact Or.inr ⟨t', hu, hleased, rfl⟩
  · rintro (rfl | ⟨u, hu, hleased, rfl⟩)
    · obtain ⟨t', ht', -, h'⟩ := h.tasks.mem_new h.task
      rcases h' with ⟨-, hto⟩ | ⟨hne, -⟩
      · exact ⟨t', ht', hto.get Task.state fun _ => rfl, hto.get Task.holding fun _ => rfl⟩
      · simp at hne
    · refine ⟨u, h.tasks.mem_keep hu (decide_eq_false fun hid => ?_), hleased, rfl⟩
      rw [task_eq_of_id hu h.task hid] at hleased
      exact hfree hleased

theorem permits_of_leases {j : Job} {t : Task} {token : Uuid} {bytes artifacts : ℤ}
    {resumed : Bool} {s s' : Store} (h : Leases j t token bytes artifacts resumed s s') :
    permits s' = insert ⟨t.id, t.originKey, some token⟩ (permits s) := by
  obtain ⟨l, horigin, htask, htoken, hinsert⟩ := h.leases
  have hl : OriginLease.holding l = ⟨t.id, t.originKey, some token⟩ := by
    simp only [OriginLease.holding, horigin, htask, htoken]
  ext x
  constructor
  · rintro ⟨m, hm, rfl⟩
    rcases (Table.mem_of_insert? hinsert).mp hm with hm | rfl
    · exact Or.inr ⟨m, hm, rfl⟩
    · exact Or.inl hl
  · rintro (rfl | ⟨m, hm, rfl⟩)
    · exact ⟨l, (Table.mem_of_insert? hinsert).mpr (Or.inr rfl), hl⟩
    · exact ⟨m, (Table.mem_of_insert? hinsert).mpr (Or.inl hm), rfl⟩

theorem held_of_settles {t : Task} {σ : TaskState} {d a : ℤ} {counted : Bool} {s s' : Store}
    (h : Settles t σ d a counted s s') : held s' = held s \ {Task.holding t} := by
  ext x
  constructor
  · rintro ⟨t', ht', hleased, rfl⟩
    obtain ⟨u, hu, -, h'⟩ := h.tasks.mem_old ht'
    rcases h' with ⟨-, hto⟩ | ⟨hid, rfl⟩
    · have hstate : t'.state = σ := hto.get Task.state fun _ => rfl
      exact absurd (hstate.symm.trans hleased) h.ends.1
    · refine ⟨⟨t', hu, hleased, rfl⟩, fun hx => ?_⟩
      have hsame : t'.id = t.id := congrArg Holding.taskId hx
      simp [hsame] at hid
  · rintro ⟨⟨u, hu, hleased, rfl⟩, hne⟩
    refine ⟨u, h.tasks.mem_keep hu (decide_eq_false fun hid => hne ?_), hleased, rfl⟩
    rw [task_eq_of_id hu h.task.1 hid]
    rfl

theorem permits_of_settles {t : Task} {σ : TaskState} {d a : ℤ} {counted : Bool} {s s' : Store}
    (hexact : permits s = held s) (h : Settles t σ d a counted s s') :
    permits s' = permits s \ {Task.holding t} := by
  obtain ⟨p, hdelete, hmine, hall⟩ := h.leases
  -- A permit of the task is the permit of its lease.
  have hpermit : ∀ l ∈ s.originLeases, l.taskId = t.id → OriginLease.holding l = Task.holding t := by
    intro l hl hid
    have hheld : OriginLease.holding l ∈ held s := hexact ▸ ⟨l, hl, rfl⟩
    obtain ⟨u, hu, -, hsame⟩ := hheld
    have huid : u.id = t.id := (congrArg Holding.taskId hsame).trans hid
    rw [← hsame, task_eq_of_id hu h.task.1 huid]
  ext x
  constructor
  · rintro ⟨l, hl, rfl⟩
    rw [hdelete, Table.mem_delete] at hl
    refine ⟨⟨l, hl.1, rfl⟩, fun hx => ?_⟩
    have hid : l.taskId = t.id := congrArg Holding.taskId hx
    have htoken : t.leaseToken = some l.leaseToken := (congrArg Holding.token hx).symm
    rw [hall l hl.1 hid htoken] at hl
    cases hl.2
  · rintro ⟨⟨l, hl, rfl⟩, hne⟩
    refine ⟨l, ?_, rfl⟩
    rw [hdelete, Table.mem_delete]
    refine ⟨hl, ?_⟩
    by_contra hp
    exact hne (hpermit l hl (hmine l hl (by simpa using hp)))

theorem Permitted.of_same {s s' : Store} (h : Permitted s) (hheld : held s' = held s)
    (hpermits : permits s' = permits s) : Permitted s' where
  exact := by rw [hheld, hpermits, h.exact]
  alone := by
    rw [hheld]
    exact h.alone

theorem permits_congr {s s' : Store} (h : s'.originLeases = s.originLeases) :
    permits s' = permits s := by
  unfold permits
  rw [h]

theorem held_congr {s s' : Store} (h : s'.tasks = s.tasks) : held s' = held s := by
  unfold held
  rw [h]

/-- Every action keeps the permits the leases. -/
theorem Permitted.preserved {s : Store} {e : Event} {s' : Store} (ha : Action s e s')
    (h : Permitted s) : Permitted s' := by
  cases ha with
  | idle ha =>
      refine h.of_same (held_of_changed ha.tasks fun t t' _ _ hto => ?_) ?_
      · have hstate : t'.state = t.state := hto.get Task.state fun _ => rfl
        exact ⟨by rw [hstate], fun _ => Task.To.holding hto rfl⟩
      · ext x
        have hcore : ∀ l l' : OriginLease, l'.core = l.core →
            OriginLease.holding l' = OriginLease.holding l :=
          fun _ _ hsame => (congrArg OriginLease.holding hsame :)
        constructor
        · rintro ⟨l', hl', rfl⟩
          obtain ⟨l, hl, -, ⟨-, hsame⟩ | ⟨-, rfl⟩⟩ := ha.leases.mem_old hl'
          · exact ⟨l, hl, (hcore l l' hsame).symm⟩
          · exact ⟨l', hl, rfl⟩
        · rintro ⟨l, hl, rfl⟩
          obtain ⟨l', hl', -, ⟨-, hsame⟩ | ⟨-, rfl⟩⟩ := ha.leases.mem_new hl
          · exact ⟨l', hl', hcore l l' hsame⟩
          · exact ⟨l', hl', rfl⟩
  | submit j seed ha =>
      exact h.of_same (held_of_insert ha.tasks ha.seed_state.1) (permits_congr ha.leases)
  | lease j t token bytes artifacts resumed ha =>
      have hheld := held_of_leases ha
      constructor
      · rw [hheld, permits_of_leases ha, h.exact]
      · -- The claim found no permit on the origin, hence no lease on it.
        have hfree : ∀ x ∈ held s, x.originKey ≠ t.originKey := by
          intro x hx horigin
          rw [← h.exact] at hx
          obtain ⟨l, hl, rfl⟩ := hx
          exact ha.free l hl horigin
        rw [hheld]
        rintro x (rfl | hx) y (rfl | hy) horigin
        · rfl
        · exact absurd horigin.symm (hfree y hy)
        · exact absurd horigin (hfree x hx)
        · exact h.alone x hx y hy horigin
  | settle e t σ downloaded artifacts counted hblocked hfailed hqueued ha =>
      have hheld := held_of_settles ha
      constructor
      · rw [hheld, permits_of_settles h.exact ha, h.exact]
      · rw [hheld]
        exact fun x hx y hy horigin => h.alone x hx.1 y hy.1 horigin
  | drain jobId σ ha =>
      refine h.of_same (held_of_drained ha.ends ha.tasks fun t _ hp hleased => ?_)
        (permits_congr ha.leases)
      simp [hleased, TaskState.queued] at hp
  | expire e t σ counted hfailed ha =>
      refine h.of_same (held_of_drained ha.ends ha.tasks fun u hu hid hleased => ?_)
        (permits_congr ha.leases)
      rw [task_eq_of_id hu ha.task.1 (of_decide_eq_true hid), ha.task.2] at hleased
      cases hleased
  | flag jobId now ha => exact h.of_same (held_congr ha.tasks) (permits_congr ha.leases)
  | close jobId state ha => exact h.of_same (held_congr ha.tasks) (permits_congr ha.leases)
  | discover e j parent child hrevived ha =>
      exact h.of_same (held_of_insert ha.tasks ha.state.1) (permits_congr ha.leases)
  | plant child ha =>
      exact h.of_same (held_of_insert ha.tasks ha.state.1) (permits_congr ha.leases)
  | recount jobId n ha => exact h.of_same (held_congr ha.tasks) (permits_congr ha.leases)
  | reserve e j t a route hunread ha => exact h.of_same (held_congr ha.tasks) (permits_congr ha.leases)
  | consume a released actual ha => exact h.of_same (held_congr ha.tasks) (permits_congr ha.leases)

theorem Permitted.of_blank {s : Store} (h : s.blank) : Permitted s := by
  obtain ⟨-, htasks, -, hleases, -⟩ := h
  have hheld : held s = ∅ := by simp [held, htasks]
  have hpermits : permits s = ∅ := by simp [permits, hleases]
  refine ⟨hpermits.trans hheld.symm, fun x hx => ?_⟩
  rw [hheld] at hx
  exact absurd hx (Set.notMem_empty x)

theorem permitted_of_reachable {url : UrlIdentity} {s : Store} (h : Reachable url s) :
    Permitted s :=
  reachable_invariant (fun _ _ _ ha hs => hs.preserved ha) (fun _ => .of_blank) h

/-! ## What it says of the store -/

/-- The permit rows are exactly the leases; each lease has a token, and no two
leases share an origin. -/
theorem origin_exclusive (url : UrlIdentity) (s : Store) (h : Reachable url s) :
    (∀ originKey taskId token,
      (∃ l ∈ s.originLeases,
        l.originKey = originKey ∧ l.taskId = taskId ∧ l.leaseToken = token) ↔
      ∃ t ∈ s.tasks, t.state = .leased ∧
        t.originKey = originKey ∧ t.id = taskId ∧ t.leaseToken = some token) ∧
    (∀ t ∈ s.tasks, t.state = .leased → t.leaseToken.isSome = true) ∧
    ∀ t ∈ s.tasks, ∀ u ∈ s.tasks, t.state = .leased → u.state = .leased →
      t.originKey = u.originKey → t = u := by
  have hpermitted := permitted_of_reachable h
  have hwf := wellFormed_of_reachable h
  refine ⟨fun originKey taskId token => ⟨?_, ?_⟩, fun t ht => (hwf.leases t ht).token.mpr,
    fun t ht u hu hleased hleased' horigin => ?_⟩
  · rintro ⟨l, hl, rfl, rfl, rfl⟩
    have hheld : OriginLease.holding l ∈ held s := hpermitted.exact ▸ ⟨l, hl, rfl⟩
    obtain ⟨t, ht, hleased, hsame⟩ := hheld
    exact ⟨t, ht, hleased, congrArg Holding.originKey hsame, congrArg Holding.taskId hsame,
      congrArg Holding.token hsame⟩
  · rintro ⟨t, ht, hleased, rfl, rfl, htoken⟩
    have hpermit : Task.holding t ∈ permits s := hpermitted.exact ▸ ⟨t, ht, hleased, rfl⟩
    obtain ⟨l, hl, hsame⟩ := hpermit
    have htok : some l.leaseToken = t.leaseToken := congrArg Holding.token hsame
    rw [htoken, Option.some.injEq] at htok
    exact ⟨l, hl, congrArg Holding.originKey hsame, congrArg Holding.taskId hsame, htok⟩
  · have hsame := hpermitted.alone _ ⟨t, ht, hleased, rfl⟩ _ ⟨u, hu, hleased', rfl⟩ horigin
    exact task_eq_of_id ht hu (congrArg Holding.taskId hsame)

/-- The lease of the seed holds the permit of its origin. -/
theorem origin_exclusive_claim :
    ∃ l ∈ (run Sample.identity {} [Sample.submit, Sample.claim]).originLeases,
      l.originKey = "https://example.com:443" ∧ l.taskId = 2 ∧ l.leaseToken = 11 :=
  ((origin_exclusive Sample.identity _
    ⟨{}, by simp [Store.blank], [Sample.submit, Sample.claim], rfl⟩).1 _ _ _).mpr
      (by decide)

end Lifecycle

end CrawlTrove
