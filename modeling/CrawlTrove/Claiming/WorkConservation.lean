import CrawlTrove.Claiming.Cases
import CrawlTrove.Protocol.View
import CrawlTrove.Relational.Line

/-!
# Work conservation

A claim takes the first task in line and then looks at its origin. A task whose
origin is blocked is put off, the queue of a job without budget is drained, but
a task whose origin is leased stays where it is: the next claim takes it again.
`work_conserved_iff` says when claims get past such tasks.
-/

namespace CrawlTrove

open Relational Transaction

open Lifecycle Protocol

namespace Claiming

/-- A transaction at this time that finds nothing locked. -/
def quiet (now : Time) : Txn := { now, uuid := id }

/-- The order of the claim query; equal tasks keep the order of the table. -/
def InOrder (a b : Task) : Prop := b.before a = false

instance : DecidableRel InOrder := fun _ _ => inferInstanceAs (Decidable (_ = _))

/-- The tasks the claim query looks through at this time. -/
def line (now : Time) (capabilities : List String) (s : Store) : List Task :=
  (s.tasks.select (s.claimable (quiet now) capabilities)).insertionSort InOrder

/-- The tasks that wait for a worker. -/
def awaiting (s : Store) : List Task :=
  s.tasks.select fun t => t.state = .pending || t.state = .retryWait

/-- Something is left of both budgets of the task's job. -/
def Funded (s : Store) (t : Task) : Prop := ∃ j, s.job? t.jobId = some j ∧ Affordable j

/-- A row of the grant is there already. -/
def Clashing (s : Store) (t : Task) : Prop :=
  (∃ a ∈ s.attempts, a.taskId = t.id ∧ a.attemptNumber = t.attemptCount + 1) ∨ permitClash t s

/-- The origin lets a request through: it is not cooling down, its next request
is due, its circuit is closed or ready for a probe, and nobody holds it. -/
def Open (now : Time) (s : Store) (t : Task) : Prop :=
  ¬ Blocked now (originFor now t.originKey s) ∧ s.originLeased t.originKey = false

/-- The origin would let a request through but is held. -/
def Busy (now : Time) (s : Store) (t : Task) : Prop :=
  ¬ Blocked now (originFor now t.originKey s) ∧ s.originLeased t.originKey = true

/-- The task meets every condition of a lease to such a worker. -/
def Eligible (now : Time) (capabilities : List String) (s : Store) (t : Task) : Prop :=
  t ∈ line now capabilities s ∧ Open now s t ∧ Funded s t

instance (s : Store) (t : Task) : Decidable (Funded s t) :=
  decidable_of_iff ((s.job? t.jobId).any fun j => decide (Affordable j)) (by
    simp [Funded, Option.any_eq_true])

instance (s : Store) (t : Task) : Decidable (Clashing s t) :=
  inferInstanceAs (Decidable
    ((∃ a ∈ s.attempts, a.taskId = t.id ∧ a.attemptNumber = t.attemptCount + 1) ∨
      ∃ l ∈ s.originLeases, l.taskId = t.id))

instance (now : Time) (s : Store) (t : Task) : Decidable (Open now s t) :=
  inferInstanceAs (Decidable (¬ _ ∧ _ = _))

instance (now : Time) (s : Store) (t : Task) : Decidable (Busy now s t) :=
  inferInstanceAs (Decidable (¬ _ ∧ _ = _))

/-- What a claim does about the first task in line. A job without budget is
dismissed as a whole. -/
def desk (now : Time) (s : Store) : Desk Task Uuid where
  group := Task.jobId
  served t := Open now s t ∧ Funded s t ∧ ¬ Clashing s t
  stalls t := Busy now s t ∨ Open now s t ∧ Funded s t ∧ Clashing s t
  dismisses t := Open now s t ∧ ¬ Funded s t
  served_not_stalls := by
    rintro t ⟨⟨-, hfree⟩, -, hfresh⟩ (⟨-, hbusy⟩ | ⟨-, -, hclash⟩)
    · rw [hfree] at hbusy
      cases hbusy
    · exact hfresh hclash
  served_not_dismisses := by
    rintro t u ⟨-, ⟨j, hj, haffordable⟩, -⟩ ⟨-, hspent⟩ hjob
    exact hspent ⟨j, hjob ▸ hj, haffordable⟩
  stalls_not_dismisses := by
    rintro t (⟨-, hbusy⟩ | ⟨-, hfunded, -⟩) ⟨⟨-, hfree⟩, hspent⟩
    · rw [hfree] at hbusy
      cases hbusy
    · exact hspent hfunded

/-- A claim at this time that meets no other transaction and draws a new uuid
for its attempt. -/
structure Undisturbed (now : Time) (s : Store) (x : Txn) : Prop where
  time : x.now = now
  unlocked : ∀ id, x.lockedTask id = false
  fresh : ∀ a ∈ s.attempts, a.id ≠ x.uuid 1

/-- The requests of one worker. -/
def claims (workerId : String) (capabilities : List String) (xs : List Txn) : List Request :=
  xs.map fun x => ⟨x, .claimTask workerId capabilities⟩

/-- One of these calls, made one after the other, leases a task. -/
def SomeLeases (url : UrlIdentity) (workerId : String) (capabilities : List String) (s : Store)
    (xs : List Txn) : Prop :=
  ∃ earlier x later, xs = earlier ++ x :: later ∧
    reply url ⟨x, .claimTask workerId capabilities⟩
      (run url s (claims workerId capabilities earlier)) = .ok true

/-! ## The line -/

theorem inOrder_iff {a b : Task} :
    InOrder a b ↔ toLex (a.priority, toLex (a.availableAt, a.discoverySeq)) ≤
      toLex (b.priority, toLex (b.availableAt, b.discoverySeq)) := by
  unfold InOrder Task.before
  rw [← not_lt, ← Bool.not_eq_true]
  simp [Prod.Lex.toLex_lt_toLex]

instance : IsTrans Task InOrder where
  trans _ _ _ hab hbc := inOrder_iff.mpr ((inOrder_iff.mp hab).trans (inOrder_iff.mp hbc))

instance : Std.Total InOrder where
  total _ _ := (le_total _ _).imp inOrder_iff.mpr inOrder_iff.mpr

/-- The query returns the head of the line. -/
theorem head?_insertionSort (ts : List Task) :
    (ts.insertionSort InOrder).head? = firstInOrder ts := by
  induction ts with
  | nil => rfl
  | cons t ts ih =>
      rw [List.insertionSort_cons, firstInOrder, ← ih]
      cases ts.insertionSort InOrder with
      | nil => rfl
      | cons u us =>
          rw [List.orderedInsert_cons, List.head?_cons]
          dsimp only
          by_cases hbefore : u.before t = true
          · have hafter : ¬ InOrder t u := by
              unfold InOrder
              rw [hbefore]
              exact Bool.noConfusion
            rw [if_neg hafter, if_pos hbefore, List.head?_cons]
          · have hahead : InOrder t u := Bool.eq_false_of_not_eq_true hbefore
            rw [if_pos hahead, if_neg hbefore, List.head?_cons]

variable {now : Time} {capabilities : List String} {x : Txn} {s s' : Store} {t : Task} {j : Job}
  {rest : List Task} {url : UrlIdentity} {workerId : String}

theorem Undisturbed.claimable (h : Undisturbed now s x) :
    s.claimable x capabilities = s.claimable (quiet now) capabilities := by
  obtain rfl := h.time
  funext t
  unfold Store.claimable quiet
  rw [h.unlocked]

theorem line_nodup : (line now capabilities s).Nodup :=
  ((List.perm_insertionSort InOrder _).nodup_iff).mpr (Table.nodup_select _ _)

theorem mem_line : t ∈ line now capabilities s ↔
    t ∈ s.tasks ∧ s.claimable (quiet now) capabilities t = true :=
  (List.mem_insertionSort InOrder).trans Table.mem_select

/-- Nothing in line, nothing claimed. -/
theorem candidate_of_nil (hx : Undisturbed now s x) (hline : line now capabilities s = []) :
    candidate x capabilities s = none := by
  have hnone := head?_insertionSort (s.tasks.select (s.claimable x capabilities))
  rw [hx.claimable] at hnone
  unfold line at hline
  rw [hline] at hnone
  unfold candidate
  rw [hx.claimable, ← hnone]
  rfl

/-- The first in line is the task a claim picks. -/
theorem candidate_of_line (hx : Undisturbed now s x)
    (hline : line now capabilities s = t :: rest) :
    ∃ j, s.job? t.jobId = some j ∧ candidate x capabilities s = some (t, j) := by
  have hfirst := head?_insertionSort (s.tasks.select (s.claimable x capabilities))
  rw [hx.claimable] at hfirst
  have hsorted := hline
  unfold line at hsorted
  rw [hsorted, List.head?_cons] at hfirst
  have hmem : t ∈ line now capabilities s := by
    rw [hline]
    exact List.mem_cons_self
  have hclaimable := (mem_line.mp hmem).2
  cases hjob : s.job? t.jobId with
  | none =>
      simp [Store.claimable, hjob] at hclaimable
  | some j =>
      refine ⟨j, rfl, ?_⟩
      unfold candidate
      rw [hx.claimable, ← hfirst, Option.bind_some, hjob, Option.map_some]

/-! ## Statements of a claim -/

/-- The desk decides alike in both stores. -/
structure Alike (now : Time) (s s' : Store) : Prop where
  blocked : ∀ key, Blocked now (originFor now key s') ↔ Blocked now (originFor now key s)
  leases : s'.originLeases = s.originLeases
  attempts : s'.attempts = s.attempts
  jobs : ∀ id, (s'.job? id).map (fun j => (j.cancelRequestedAt, j.deadlineAt, j.remainingBytes,
    j.remainingArtifacts)) = (s.job? id).map fun j => (j.cancelRequestedAt, j.deadlineAt,
    j.remainingBytes, j.remainingArtifacts)

theorem Alike.funded (h : Alike now s s') : Funded s' t ↔ Funded s t := by
  have hjobs := h.jobs t.jobId
  unfold Funded Affordable
  cases hs : s.job? t.jobId with
  | none =>
      cases hs' : s'.job? t.jobId with
      | none => simp
      | some j' =>
          rw [hs, hs'] at hjobs
          cases hjobs
  | some j =>
      cases hs' : s'.job? t.jobId with
      | none =>
          rw [hs, hs'] at hjobs
          cases hjobs
      | some j' =>
          rw [hs, hs', Option.map_some, Option.map_some, Option.some.injEq] at hjobs
          simp only [Prod.mk.injEq] at hjobs
          simp [hjobs.2.2]

theorem Alike.claimable (h : Alike now s s') :
    s'.claimable (quiet now) capabilities = s.claimable (quiet now) capabilities := by
  funext t
  have hjobs := h.jobs t.jobId
  unfold Store.claimable
  cases hs : s.job? t.jobId with
  | none =>
      cases hs' : s'.job? t.jobId with
      | none => rfl
      | some j' =>
          rw [hs, hs'] at hjobs
          cases hjobs
  | some j =>
      cases hs' : s'.job? t.jobId with
      | none =>
          rw [hs, hs'] at hjobs
          cases hjobs
      | some j' =>
          rw [hs, hs', Option.map_some, Option.map_some, Option.some.injEq] at hjobs
          simp only [Prod.mk.injEq] at hjobs
          dsimp only
          rw [hjobs.1, hjobs.2.1]

theorem Alike.desk (h : Alike now s s') : desk now s' = desk now s := by
  have hopen : ∀ t, Open now s' t ↔ Open now s t := by
    intro t
    unfold Open Store.originLeased
    rw [h.blocked, h.leases]
  have hbusy : ∀ t, Busy now s' t ↔ Busy now s t := by
    intro t
    unfold Busy Store.originLeased
    rw [h.blocked, h.leases]
  have hclash : ∀ t, Clashing s' t ↔ Clashing s t := by
    intro t
    unfold Clashing permitClash
    rw [h.attempts, h.leases]
  unfold Claiming.desk
  congr 1
  · funext t
    rw [hopen, h.funded, hclash]
  · funext t
    rw [hbusy, hopen, h.funded, hclash]
  · funext t
    rw [hopen, h.funded]

theorem Alike.undisturbed (h : Alike now s s') (hx : Undisturbed now s x) :
    Undisturbed now s' x :=
  ⟨hx.time, hx.unlocked, h.attempts ▸ hx.fresh⟩

theorem Opened.alike (h : Opened now s s') : Alike now s s' := by
  refine ⟨h.blocked, h.tables.2.2.1, h.tables.2.2.2, fun id => ?_⟩
  unfold Store.job?
  rw [h.tables.2.1]

/-- Other tasks do not matter to the desk. -/
theorem Alike.updateTasks (h : Alike now s s') (p : Task → Bool) (f : Task → Task)
    (hf : ∀ r, Keyed.key (f r) = Keyed.key r) : Alike now s (s'.updateTasks p f hf) :=
  ⟨h.blocked, h.leases, h.attempts, h.jobs⟩

/-- Neither do the counters of a job. -/
theorem Alike.updateJobs (h : Alike now s s') {p : Job → Bool} {f : Job → Job}
    (hf : ∀ r, Keyed.key (f r) = Keyed.key r)
    (hsame : ∀ j, ((f j).id, (f j).cancelRequestedAt, (f j).deadlineAt, (f j).remainingBytes,
      (f j).remainingArtifacts) = (j.id, j.cancelRequestedAt, j.deadlineAt, j.remainingBytes,
      j.remainingArtifacts)) : Alike now s (s'.updateJobs p f hf) := by
  refine ⟨h.blocked, h.leases, h.attempts, fun id => ?_⟩
  rw [← h.jobs id]
  have hrow : ∀ j, (if p j then f j else j).id = j.id := by
    intro j
    split
    · exact congrArg Prod.fst (hsame j)
    · rfl
  unfold Store.job? Store.updateJobs Table.find? Table.update
  rw [List.find?_map]
  have hpred : ((fun j : Job => decide (j.id = id)) ∘ fun j => if p j then f j else j) =
      fun j => decide (j.id = id) := by
    funext j
    show decide ((if p j then f j else j).id = id) = _
    rw [hrow]
  rw [hpred, Option.map_map]
  congr 1
  funext j
  show _ = (j.cancelRequestedAt, j.deadlineAt, j.remainingBytes, j.remainingArtifacts)
  dsimp only [Function.comp_apply]
  split
  · exact congrArg Prod.snd (hsame j)
  · rfl

/-- An update that takes tasks out of the line leaves the others in order. -/
theorem line_update (h : Alike now s s') {p : Task → Bool} {f : Task → Task}
    (htasks : s'.tasks.rows = s.tasks.rows.map fun t => if p t then f t else t)
    (hout : ∀ t, p t = true → s.claimable (quiet now) capabilities (f t) = false) :
    line now capabilities s' = (line now capabilities s).filter fun t => !p t := by
  have hrows : ∀ rows : List Task,
      (rows.map fun t => if p t then f t else t).filter (s.claimable (quiet now) capabilities) =
        (rows.filter (s.claimable (quiet now) capabilities)).filter fun t => !p t := by
    intro rows
    induction rows with
    | nil => rfl
    | cons t rows ih =>
        rw [List.map_cons]
        cases hp : p t with
        | true =>
            rw [if_pos rfl, List.filter_cons_of_neg (by simp [hout t hp]), ih]
            by_cases hc : s.claimable (quiet now) capabilities t = true
            · rw [List.filter_cons_of_pos hc, List.filter_cons_of_neg (by simp [hp])]
            · rw [List.filter_cons_of_neg hc]
        | false =>
            rw [if_neg (by simp)]
            by_cases hc : s.claimable (quiet now) capabilities t = true
            · rw [List.filter_cons_of_pos hc, List.filter_cons_of_pos hc,
                List.filter_cons_of_pos (by simp [hp]), ih]
            · rw [List.filter_cons_of_neg hc, List.filter_cons_of_neg hc, ih]
  unfold line Table.select
  rw [h.claimable, htasks, hrows, filter_insertionSort]

theorem deferTask_alike (h : Alike now s s') (u : Time) : Alike now s (deferTask t.id u s') :=
  h.updateTasks _ _ _

theorem drainUnleased_alike (h : Alike now s s') (jobId : Uuid) (reason : String) :
    Alike now s (drainUnleased now jobId reason s') := by
  rw [drainUnleased_eq]
  exact (h.updateTasks _ _ _).updateJobs _ fun _ => rfl

/-- A task put off leaves the line. -/
theorem line_deferTask (h : Opened now s s') {u : Time} (hu : now < u)
    (hline : line now capabilities s = t :: rest) :
    line now capabilities (deferTask t.id u s') = rest := by
  have hrows : (deferTask t.id u s').tasks.rows = s.tasks.rows.map fun v =>
      if decide (v.id = t.id) then { v with availableAt := u } else v := by
    rw [← h.tables.1]
    rfl
  rw [line_update (deferTask_alike h.alike u) hrows, hline,
    List.filter_cons_of_neg (by simp), List.filter_eq_self]
  · intro v hv
    have hnodup := List.nodup_cons.mp (hline ▸ line_nodup)
    have htask : t ∈ s.tasks := (mem_line.mp (hline ▸ List.mem_cons_self)).1
    have hother : v ∈ s.tasks := (mem_line.mp (hline ▸ List.mem_cons_of_mem t hv)).1
    have hne : v.id ≠ t.id := by
      intro hid
      exact hnodup.1 (task_eq_of_id hother htask hid ▸ hv)
    simp [hne]
  · intro v _
    have hlate : ¬ u ≤ now := not_le.mpr hu
    simp [Store.claimable, quiet, hlate]

/-- A drained job leaves it as a whole. -/
theorem line_drainUnleased (h : Opened now s s') (reason : String)
    (hline : line now capabilities s = t :: rest) :
    line now capabilities (drainUnleased now t.jobId reason s') =
      rest.filter fun v => (desk now s).group v ≠ (desk now s).group t := by
  have hrows : (drainUnleased now t.jobId reason s').tasks.rows = s.tasks.rows.map fun v =>
      if decide (v.jobId = t.jobId) && v.state.queued then drainTask now reason v else v := by
    rw [← h.tables.1, drainUnleased_tasks]
    rfl
  have hqueued : ∀ v ∈ line now capabilities s, v.state.queued = true := by
    intro v hv
    have hc := (mem_line.mp hv).2
    simp only [Store.claimable, Bool.and_eq_true, Bool.or_eq_true, decide_eq_true_eq] at hc
    rcases hc.1.1.1.1 with hstate | hstate
    · rw [hstate]; rfl
    · rw [hstate]; rfl
  rw [line_update (drainUnleased_alike h.alike _ _) hrows]
  · rw [hline] at hqueued ⊢
    rw [List.filter_cons_of_neg (by simp [hqueued t List.mem_cons_self])]
    refine List.filter_congr fun v hv => ?_
    show _ = decide (v.jobId ≠ t.jobId)
    rw [hqueued v (List.mem_cons_of_mem t hv)]
    simp
  · intro v _
    rfl

/-! ## One claim -/

/-- The claim leases nothing and leaves the line as it stands here. -/
structure Leaves (url : UrlIdentity) (now : Time) (workerId : String) (capabilities : List String)
    (s : Store) (x : Txn) (left : List Task) : Prop where
  refused : reply url ⟨x, .claimTask workerId capabilities⟩ s ≠ .ok true
  alike : Alike now s (step url ⟨x, .claimTask workerId capabilities⟩ s)
  stands : line now capabilities (step url ⟨x, .claimTask workerId capabilities⟩ s) = left

theorem Leaves.of_run {left : List Task}
    (hrun : claimTask x workerId capabilities s = .ok (none, s')) (halike : Alike now s s')
    (hline : line now capabilities s' = left) :
    Leaves url now workerId capabilities s x left := by
  have hcommit := commit_of_ok hrun
  constructor
  · rw [reply_claim, hcommit]
    exact fun heq => Bool.noConfusion (Except.ok.inj heq)
  · rw [step_claim, hcommit]
    exact halike
  · rw [step_claim, hcommit]
    exact hline

theorem Leaves.of_error {e : DbError} (hrun : claimTask x workerId capabilities s = .error e) :
    Leaves url now workerId capabilities s x (line now capabilities s) := by
  have hcommit := commit_of_error hrun
  constructor
  · rw [reply_claim, hcommit]
    exact fun heq => by cases heq
  · rw [step_claim, hcommit]
    exact ⟨fun _ => Iff.rfl, rfl, rfl, fun _ => rfl⟩
  · rw [step_claim, hcommit]

theorem clashing_iff (hx : Undisturbed now s x) : clashing x t s = true ↔ Clashing s t := by
  rw [clashing_eq_true]
  refine or_congr (exists_congr fun a => and_congr_right fun ha => ?_) Iff.rfl
  exact or_iff_right (hx.fresh a ha)

/-- A claim does what the desk does with the first in line. -/
theorem claim_serves (hx : Undisturbed now s x)
    (hline : line now capabilities s = t :: rest) :
    ((desk now s).served t ∧
        reply url ⟨x, .claimTask workerId capabilities⟩ s = .ok true) ∨
      ((desk now s).stalls t ∧ Leaves url now workerId capabilities s x (t :: rest)) ∨
      (((desk now s).dismisses t ∧ Leaves url now workerId capabilities s x
          (rest.filter fun v => (desk now s).group v ≠ (desk now s).group t)) ∨
        ¬ (desk now s).served t ∧ ¬ (desk now s).stalls t ∧ ¬ (desk now s).dismisses t ∧
          Leaves url now workerId capabilities s x rest) := by
  obtain ⟨j, hjob, hc⟩ := candidate_of_line hx hline
  obtain ⟨s₁, hopened, hends⟩ := claimTask_cases workerId hc
  rw [hx.time] at hopened hends
  have hfunded : Funded s t ↔ Affordable j := by
    constructor
    · rintro ⟨j', hj', haffordable⟩
      rw [hjob] at hj'
      rwa [← Option.some.inj hj'] at haffordable
    · exact fun haffordable => ⟨j, hjob, haffordable⟩
  rcases hends with ⟨hblocked, u, hu, hrun⟩ | ⟨hclear, ⟨hleased, hrun⟩ | ⟨hfree, hends⟩⟩
  · -- The task is put off.
    refine Or.inr (Or.inr (Or.inr ⟨?_, ?_, ?_, ?_⟩))
    · exact fun h => h.1.1 hblocked
    · rintro (h | h)
      · exact h.1 hblocked
      · exact h.1.1 hblocked
    · exact fun h => h.1.1 hblocked
    · exact .of_run hrun (deferTask_alike hopened.alike u) (line_deferTask hopened hu hline)
  · -- The origin is held, and nothing changes.
    refine Or.inr (Or.inl ⟨Or.inl ⟨hclear, hleased⟩, .of_run hrun hopened.alike ?_⟩)
    unfold line
    rw [hopened.alike.claimable, hopened.tables.1]
    exact hline
  · have hopen : Open now s t := ⟨hclear, hfree⟩
    rcases hends with ⟨hspent, hrun⟩ | ⟨haffordable, hrun⟩
    · -- The job is drained.
      refine Or.inr (Or.inr (Or.inl ⟨⟨hopen, fun h => hspent (hfunded.mp h)⟩, ?_⟩))
      exact .of_run hrun (drainUnleased_alike hopened.alike _ _)
        (line_drainUnleased hopened _ hline)
    · have htask : t ∈ s₁.tasks := by
        rw [hopened.tables.1]
        exact (mem_line.mp (hline ▸ List.mem_cons_self)).1
      have hsame : clashing x t s₁ = clashing x t s := by
        unfold clashing
        rw [hopened.tables.2.2.1, hopened.tables.2.2.2]
      rcases grantLease_grants x workerId j (allowances t j).1 (allowances t j).2 htask with
        ⟨hclash, e, hgrant⟩ | ⟨hclash, g, s₂, hgrant, -⟩
      · -- The grant raises.
        rw [hsame, clashing_iff hx] at hclash
        rw [map_run_error hgrant] at hrun
        refine Or.inr (Or.inl ⟨Or.inr ⟨hopen, hfunded.mpr haffordable, hclash⟩, ?_⟩)
        exact hline ▸ .of_error hrun
      · -- The task is leased.
        rw [hsame] at hclash
        rw [map_run_ok hgrant] at hrun
        refine Or.inl ⟨⟨hopen, hfunded.mpr haffordable, fun h => ?_⟩, ?_⟩
        · rw [(clashing_iff hx).mpr h] at hclash
          cases hclash
        · rw [reply_claim, commit_of_ok hrun]
          rfl

/-! ## Successive claims -/

section Successive

variable {xs : List Txn}

theorem not_someLeases_nil : ¬ SomeLeases url workerId capabilities s [] := by
  rintro ⟨earlier, x, later, heq, -⟩
  cases earlier with
  | nil => cases heq
  | cons => cases heq

/-- The first call leases, or a later one does in the store it leaves. -/
theorem someLeases_cons : SomeLeases url workerId capabilities s (x :: xs) ↔
    reply url ⟨x, .claimTask workerId capabilities⟩ s = .ok true ∨
      SomeLeases url workerId capabilities
        (step url ⟨x, .claimTask workerId capabilities⟩ s) xs := by
  constructor
  · rintro ⟨earlier, y, later, heq, hreply⟩
    cases earlier with
    | nil =>
        obtain ⟨rfl, rfl⟩ := List.cons.inj heq
        exact Or.inl hreply
    | cons z earlier =>
        obtain ⟨rfl, rfl⟩ := List.cons.inj heq
        exact Or.inr ⟨earlier, y, later, rfl, hreply⟩
  · rintro (hreply | ⟨earlier, y, later, rfl, hreply⟩)
    · exact ⟨[], x, xs, rfl, hreply⟩
    · exact ⟨x :: earlier, y, later, rfl, hreply⟩

theorem Leaves.someLeases_cons {left : List Task}
    (h : Leaves url now workerId capabilities s x left) :
    SomeLeases url workerId capabilities s (x :: xs) ↔
      SomeLeases url workerId capabilities
        (step url ⟨x, .claimTask workerId capabilities⟩ s) xs :=
  Claiming.someLeases_cons.trans (or_iff_right h.refused)

theorem Alike.undisturbed_all (h : Alike now s s') (hxs : ∀ x ∈ xs, Undisturbed now s x) :
    ∀ x ∈ xs, Undisturbed now s' x :=
  fun x hx => h.undisturbed (hxs x hx)

/-- Nobody is leased from a line without tasks. -/
theorem not_someLeases_of_nil (hxs : ∀ x ∈ xs, Undisturbed now s x)
    (hline : line now capabilities s = []) : ¬ SomeLeases url workerId capabilities s xs := by
  induction xs with
  | nil => exact not_someLeases_nil
  | cons x xs ih =>
      have hrun : claimTask x workerId capabilities s = .ok (none, s) := by
        rw [claimTask_run, candidate_of_nil (hxs x List.mem_cons_self) hline]
      have hleaves : Leaves url now workerId capabilities s x [] :=
        .of_run hrun ⟨fun _ => Iff.rfl, rfl, rfl, fun _ => rfl⟩ hline
      have hstep : step url ⟨x, .claimTask workerId capabilities⟩ s = s := by
        rw [step_claim, commit_of_ok hrun]
      rw [hleaves.someLeases_cons, hstep]
      exact ih fun y hy => hxs y (List.mem_cons_of_mem x hy)

/-- Once stalled, always stalled: no claim at this time gets past the head. -/
theorem not_someLeases_of_stalls (hxs : ∀ x ∈ xs, Undisturbed now s x)
    (hline : line now capabilities s = t :: rest) (hstalls : (desk now s).stalls t) :
    ¬ SomeLeases url workerId capabilities s xs := by
  induction xs generalizing s with
  | nil => exact not_someLeases_nil
  | cons x xs ih =>
      have hleaves : Leaves url now workerId capabilities s x (t :: rest) := by
        rcases claim_serves (hxs x List.mem_cons_self) hline with
          ⟨hserved, -⟩ | ⟨-, h⟩ | ⟨hdismisses, -⟩ | ⟨-, hnot, -⟩
        · exact absurd hstalls ((desk now s).served_not_stalls t hserved)
        · exact h
        · exact absurd hdismisses ((desk now s).stalls_not_dismisses t hstalls)
        · exact absurd hstalls hnot
      rw [hleaves.someLeases_cons]
      refine ih (hleaves.alike.undisturbed_all fun y hy => hxs y (List.mem_cons_of_mem x hy))
        hleaves.stands ?_
      rw [hleaves.alike.desk]
      exact hstalls

/-- Claims lease a task if and only if the desk serves somebody in line, given
as many of them as there are tasks in line. -/
theorem someLeases_iff (hxs : ∀ x ∈ xs, Undisturbed now s x)
    (hlength : (line now capabilities s).length ≤ xs.length) :
    SomeLeases url workerId capabilities s xs ↔
      (desk now s).Serves (line now capabilities s) := by
  induction xs generalizing s with
  | nil =>
      have hline : line now capabilities s = [] :=
        List.eq_nil_of_length_eq_zero (Nat.le_zero.mp hlength)
      rw [hline]
      exact iff_of_false not_someLeases_nil Desk.serves_nil
  | cons x xs ih =>
      have hlater : ∀ y ∈ xs, Undisturbed now s y := fun y hy => hxs y (List.mem_cons_of_mem x hy)
      have hnodup : (line now capabilities s).Nodup := line_nodup
      -- Where the head leaves the line, the rest of the calls is enough for it.
      have hshorter : ∀ {left}, Leaves url now workerId capabilities s x left →
          left.length + 1 ≤ (line now capabilities s).length →
            (SomeLeases url workerId capabilities s (x :: xs) ↔ (desk now s).Serves left) := by
        intro left hleaves hleft
        rw [hleaves.someLeases_cons, ih (hleaves.alike.undisturbed_all hlater), hleaves.stands,
          hleaves.alike.desk]
        rw [hleaves.stands]
        rw [List.length_cons] at hlength
        omega
      cases hline : line now capabilities s with
      | nil => exact iff_of_false (not_someLeases_of_nil hxs hline) Desk.serves_nil
      | cons t rest =>
          rw [hline] at hshorter hnodup
          rcases claim_serves (hxs x List.mem_cons_self) hline with
            ⟨hserved, hreply⟩ | ⟨hstalls, -⟩ | ⟨hdismisses, hleaves⟩ |
              ⟨hserved, hstalls, hdismisses, hleaves⟩
          · exact iff_of_true (someLeases_cons.mpr (Or.inl hreply))
              (Desk.serves_of_served hnodup hserved)
          · exact iff_of_false (not_someLeases_of_stalls hxs hline hstalls)
              (Desk.not_serves_of_stalls hnodup hstalls)
          · rw [Desk.serves_of_dismisses hdismisses]
            refine hshorter hleaves ?_
            exact Nat.add_le_add_right (List.length_filter_le _ _) 1
          · rw [Desk.serves_of_passes hserved hstalls hdismisses]
            exact hshorter hleaves le_rfl

theorem line_length_le : (line now capabilities s).length ≤ (awaiting s).length := by
  unfold line awaiting Table.select
  rw [List.length_insertionSort]
  refine List.Sublist.length_le (List.monotone_filter_right _ fun t hc => ?_)
  simp only [Store.claimable, Bool.and_eq_true] at hc
  exact hc.1.1.1.1

/-- Where a task could be leased, as many claims as tasks wait lease one exactly
if the line has somebody to serve: every task that stalls it stands behind an
open one of its own job, which has no budget left. -/
theorem work_conserved_iff (url : UrlIdentity) (now : Time) (workerId : String)
    (capabilities : List String) (s : Store) (xs : List Txn)
    (hxs : ∀ x ∈ xs, Undisturbed now s x) (hlength : xs.length = (awaiting s).length) :
    ((∃ t, Eligible now capabilities s t) → SomeLeases url workerId capabilities s xs) ↔
      ((∃ t, Eligible now capabilities s t) →
        (desk now s).Serves (line now capabilities s)) := by
  rw [someLeases_iff hxs (hlength ▸ line_length_le)]

end Successive

/-- The seed of a crawl, alone in line. -/
theorem work_conserved_seed : SomeLeases Sample.identity "local" ["http"]
    (run Sample.identity {} [Sample.submit]) [Sample.claim.txn] := by
  have hline : (line (seconds 1) ["http"] (run Sample.identity {} [Sample.submit])).length = 1 ∧
      ∀ t ∈ line (seconds 1) ["http"] (run Sample.identity {} [Sample.submit]),
        Open (seconds 1) (run Sample.identity {} [Sample.submit]) t ∧
          Funded (run Sample.identity {} [Sample.submit]) t ∧
            ¬ Clashing (run Sample.identity {} [Sample.submit]) t := by decide
  obtain ⟨hlength, hserved⟩ := hline
  obtain ⟨t, hline⟩ := List.length_eq_one_iff.mp hlength
  obtain ⟨hopen, hfunded, hfresh⟩ := hserved t (hline ▸ List.mem_singleton_self t)
  refine (work_conserved_iff Sample.identity (seconds 1) "local" ["http"] _ _ ?_ ?_).mpr ?_ ?_
  · intro x hx
    rw [List.mem_singleton.mp hx]
    exact ⟨rfl, fun _ => rfl, by decide⟩
  · decide
  · intro _
    rw [hline]
    exact Desk.serves_of_served (List.nodup_singleton t) ⟨hopen, hfunded, hfresh⟩
  · exact ⟨t, hline ▸ List.mem_singleton_self t, hopen, hfunded⟩

/-- Two sites. -/
def twoSites : UrlIdentity :=
  { Sample.identity with
    originKey := fun url =>
      if url = "https://example.org" then "https://example.org:443" else "https://example.com:443" }

/-- One site has a page leased and another in line, then the other site comes. -/
def behindBusy : List Request :=
  [Sample.submit, Sample.claim,
    ⟨{ now := seconds 2, uuid := fun n => 21 + n }, .submitJob Sample.config none⟩,
    ⟨{ now := seconds 3, uuid := fun n => 31 + n }, .submitJob
      { Sample.config with url := "https://example.org" } none⟩]

/-- Claims of both tasks at 4 s. -/
def bothClaims : List Txn :=
  [{ now := seconds 4, uuid := fun n => 41 + n }, { now := seconds 4, uuid := fun n => 51 + n }]

/-- The page in line is in the way of the other site for as long as its site
is busy. -/
theorem work_stalled_behind_busy :
    ¬ ∀ (requests : List Request) (now : Time) (xs : List Txn),
      (∀ x ∈ xs, Undisturbed now (run twoSites {} requests) x) →
        xs.length = (awaiting (run twoSites {} requests)).length →
          (∃ t, Eligible now ["http"] (run twoSites {} requests) t) →
            SomeLeases twoSites "local" ["http"] (run twoSites {} requests) xs := by
  intro h
  have hfour : ∀ x ∈ bothClaims, Undisturbed (seconds 4) (run twoSites {} behindBusy) x := by
    have hfresh : ∀ a ∈ (run twoSites {} behindBusy).attempts, a.id ≠ 42 ∧ a.id ≠ 52 := by
      decide
    intro x hx
    rcases List.mem_pair.mp hx with rfl | rfl
    · exact ⟨rfl, fun _ => rfl, fun a ha => (hfresh a ha).1⟩
    · exact ⟨rfl, fun _ => rfl, fun a ha => (hfresh a ha).2⟩
  have hline : (line (seconds 4) ["http"] (run twoSites {} behindBusy)).map Task.id = [22, 32] ∧
      (∀ t ∈ line (seconds 4) ["http"] (run twoSites {} behindBusy), t.id = 22 →
        Busy (seconds 4) (run twoSites {} behindBusy) t) ∧
      ∃ t ∈ line (seconds 4) ["http"] (run twoSites {} behindBusy),
        Open (seconds 4) (run twoSites {} behindBusy) t ∧
          Funded (run twoSites {} behindBusy) t := by decide
  obtain ⟨hids, hbusy, t, ht, hopen, hfunded⟩ := hline
  have hleases := h behindBusy (seconds 4) bothClaims hfour (by decide)
    ⟨t, ht, hopen, hfunded⟩
  obtain ⟨u, rest, hline, hu, -⟩ := List.map_eq_cons_iff.mp hids
  refine not_someLeases_of_stalls hfour hline (Or.inl (hbusy u ?_ hu)) hleases
  rw [hline]
  exact List.mem_cons_self

end Claiming

end CrawlTrove
