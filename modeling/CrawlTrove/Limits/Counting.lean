import CrawlTrove.Limits.Reaping
import CrawlTrove.Sessions.Parked

/-!
# Failures that are only counted

The worker protocol and the two ways a session expires count a failure without
a look at the failure limit. That does no harm where the failure leaves its job
below the limit, or without work.
-/

namespace CrawlTrove

open Relational Transaction

open Lifecycle Protocol

namespace Limits

/-- The failure of this task is the last the job may have, and leaves other
tasks queued. -/
def LeavesWork (task : Task) (s : Store) : Prop :=
  Spent task.jobId 1 s ∧
    ∃ t ∈ s.tasks, t.jobId = task.jobId ∧ t.state.queued = true ∧ t.id ≠ task.id

instance (task : Task) (s : Store) : Decidable (LeavesWork task s) :=
  inferInstanceAs (Decidable (_ ∧ ∃ t ∈ s.tasks, _))

/-- The waiting task of the session belongs to the job. -/
def waitsIn (s : Store) (jobId : Uuid) (l : LiveSession) : Bool :=
  (s.task? l.taskId).any fun t => decide (t.jobId = jobId) && decide (t.state = .waitingInput)

/-- `expire_due` brings no job to its limit whose other tasks stay queued. -/
def ExpiresWithin (x : Txn) (s : Store) : Prop :=
  ∀ j ∈ s.jobs,
    j.config.maxFailures ≤
        j.failedCount + (s.sessions.select (Sessions.due x.now)).countP (waitsIn s j.id) →
      ∀ t ∈ s.tasks, t.jobId = j.id → t.state.queued = true →
        t.state = .waitingInput ∧ ∃ l ∈ s.sessions, Sessions.due x.now l = true ∧ l.taskId = t.id

section Counting

variable {s s' : Store} {jobId : Uuid}

/-- What a change of some job rows may do to the failures left. -/
theorem Spent.of_jobs {p : Job → Bool} {f : Job → Job} {n k : ℤ}
    (hjobs : s'.jobs.rows = s.jobs.rows.map fun j => if p j then f j else j)
    (hf : ∀ j, (f j).id = j.id ∧ (f j).config = j.config)
    (hcount : ∀ j, p j = true → j.id = jobId → (f j).failedCount ≤ j.failedCount + k)
    (hk : 0 ≤ k)
    (h : Spent jobId n s') : Spent jobId (n + k) s := by
  obtain ⟨j', hj', hid, hlimit⟩ := h
  rw [Table.mem_def, hjobs] at hj'
  obtain ⟨j, hj, hrow⟩ := List.mem_map.mp hj'
  by_cases hp : p j = true
  · rw [if_pos hp] at hrow
    obtain ⟨hsame, hconfig⟩ := hf j
    have hjid : j.id = jobId := hsame.symm.trans (hrow ▸ hid)
    have hfailed := hcount j hp hjid
    rw [← hrow, hconfig] at hlimit
    exact ⟨j, hj, hjid, by linarith⟩
  · rw [if_neg hp] at hrow
    exact ⟨j, hj, hrow ▸ hid, by rw [hrow]; linarith⟩

/-- A failure that is counted without a look at the limit does no harm as long
as it leaves no work. -/
theorem counted_shrinks {task : Task} (h : WindsBut (· = task.jobId) s s')
    (hspent : AtLimit task.jobId s' → Spent task.jobId 1 s)
    (hended : ∀ t' ∈ s'.tasks, t'.id = task.id → t'.state.queued = false)
    (hwork : ¬ LeavesWork task s) : Shrinks Overrun s s' := by
  intro jobId ho
  by_cases hjob : jobId = task.jobId
  · subst hjob
    obtain ⟨t', ht', hp⟩ := Table.any_eq_true.mp ho.2
    simp only [Bool.and_eq_true, decide_eq_true_eq] at hp
    obtain ⟨t, ht, hid, hsame, hstate⟩ := h.queued t' ht' hp.2
    refine absurd ⟨hspent ho.1, t, ht, hsame.trans hp.1, hstate ▸ hp.2, fun htask => ?_⟩ hwork
    have hnot := hended t' ht' (hid.symm.trans htask)
    rw [hp.2] at hnot
    cases hnot
  · exact h.overrun hjob ho

/-! ### The worker protocol -/

theorem failRows_spent {x : Txn} {task : Task} {token : Uuid} {errorClass errorCode : String}
    {used : ℤ} (h : AtLimit jobId (WorkerApi.failRows x task token errorClass errorCode used s)) :
    Spent jobId 1 s := by
  rw [← zero_add (1 : ℤ)]
  refine Spent.of_jobs rfl (fun _ => ?_) (fun _ _ _ => ?_) (by norm_num) (spent_zero.mpr h)
  · exact ⟨rfl, rfl⟩
  · exact le_refl _

theorem failRows_shrinks {x : Txn} {task : Task} (token : Uuid) (errorClass errorCode : String)
    (used : ℤ) (hwork : ¬ LeavesWork task s) :
    Shrinks Overrun s (WorkerApi.failRows x task token errorClass errorCode used s) := by
  refine counted_shrinks (failRows_winds x task token _ _ _ s rfl) failRows_spent ?_ hwork
  intro t' ht' hid
  obtain ⟨t, -, hrow⟩ := List.mem_map.mp ht'
  by_cases hp : decide (t.id = task.id) = true
  · rw [if_pos hp] at hrow
    rw [← hrow]
    rfl
  · rw [if_neg hp] at hrow
    exact absurd (decide_eq_true (hrow ▸ hid)) hp

/-! ### Sessions that are closed -/

theorem endSessionTask_spent {now : Time} {task : Task} {reason : CloseReason}
    (h : AtLimit jobId (endSessionTask now task reason s)) : Spent jobId 1 s := by
  rw [← zero_add (1 : ℤ)]
  refine Spent.of_jobs rfl (fun _ => ?_) (fun _ _ _ => ?_) (by norm_num) (spent_zero.mpr h)
  · exact ⟨rfl, rfl⟩
  · refine Int.add_le_add_left ?_ _
    split <;> norm_num

/-- The end of a session may end its task, and count it. -/
theorem closeTask_shrinks (now : Time) {task : Task} (reason : CloseReason) (owned : Bool)
    (hwork : reason.expires = true →
      task.state = .waitingInput ∨ (task.state = .leased ∧ owned = true) → ¬ LeavesWork task s) :
    Shrinks Overrun s (closeTask now task reason owned s) := by
  cases hexpires : reason.expires with
  | false =>
      have hwinds : WindsDown s (closeTask now task reason owned s) :=
        closeTask_winds now task _ owned s fun h => by rw [hexpires] at h; cases h
      exact hwinds.shrinks
  | true =>
      have hwinds : WindsBut (· = task.jobId) s (closeTask now task reason owned s) :=
        closeTask_winds now task _ owned s fun _ => rfl
      unfold closeTask at hwinds ⊢
      split
      · rename_i hwaits
        rw [if_pos hwaits] at hwinds
        refine counted_shrinks hwinds endSessionTask_spent (fun t ht hid => ?_)
          (hwork hexpires (Or.inl hwaits))
        rw [Sessions.endSessionTask_ends _ _ _ _ t ht hid]
        exact reason.not_queued_task
      · rename_i hnot
        rw [if_neg hnot] at hwinds
        split
        · rename_i hleased
          rw [if_pos hleased] at hwinds
          refine counted_shrinks hwinds (fun hlimit => ?_) (fun t ht hid => ?_)
            (hwork hexpires (Or.inr hleased))
          · rw [← add_zero (1 : ℤ)]
            refine Spent.of_jobs rfl (fun _ => ?_) (fun _ _ _ => ?_) (le_refl 0)
              (endSessionTask_spent hlimit)
            · exact ⟨rfl, rfl⟩
            · exact (add_zero _).symm.le
          · rw [Sessions.endSessionTask_ends _ _ _ _ t ht hid]
            exact reason.not_queued_task
        · exact refl_of _ s

/-! ### Sessions that are due -/

/-- The task with this id stays as it is where only others change. -/
theorem task?_of_rows {p : Task → Bool} {f : Task → Task} {id : Uuid}
    (htasks : s'.tasks.rows = s.tasks.rows.map fun t => if p t then f t else t)
    (hf : ∀ t, (f t).id = t.id) (hp : ∀ t, t.id = id → p t = false) :
    s'.task? id = s.task? id := by
  refine Option.ext fun t => ?_
  rw [Store.task?_eq_some, Store.task?_eq_some, Table.mem_def, htasks, List.mem_map]
  constructor
  · rintro ⟨⟨u, hu, hrow⟩, hid⟩
    by_cases hpu : p u = true
    · rw [if_pos hpu] at hrow
      rw [hp u ((hf u).symm.trans (hrow ▸ hid))] at hpu
      cases hpu
    · rw [if_neg hpu] at hrow
      exact ⟨hrow ▸ hu, hid⟩
  · rintro ⟨ht, hid⟩
    exact ⟨⟨t, ht, by rw [if_neg (by simp [hp t hid])]⟩, hid⟩

/-- One expired session moves no other task. -/
theorem expireSession_waitsIn (x : Txn) {l k : LiveSession} (hother : k.taskId ≠ l.taskId) :
    waitsIn (expireSession x l s) jobId k = waitsIn s jobId k := by
  have hfound : (expireSession x l s).task? k.taskId = s.task? k.taskId := by
    unfold expireSession
    cases htask : s.task? l.taskId with
    | none => rfl
    | some task =>
        dsimp only
        split
        · rfl
        · have hid := (Store.task?_eq_some.mp htask).2
          refine task?_of_rows rfl (fun _ => rfl) fun t htid => ?_
          simp [htid, hid, hother]
  unfold waitsIn
  rw [hfound]

/-- It counts at most its own task. -/
theorem expireSession_spent (x : Txn) {l : LiveSession} {n : ℤ}
    (h : Spent jobId n (expireSession x l s)) :
    Spent jobId (n + if waitsIn s jobId l then 1 else 0) s := by
  unfold expireSession at h
  cases htask : s.task? l.taskId with
  | none =>
      rw [htask] at h
      simpa [waitsIn, htask] using h
  | some task =>
      rw [htask] at h
      dsimp only at h
      split at h
      · rename_i hnot
        simpa [waitsIn, htask, hnot] using h
      · rename_i hwaits
        refine Spent.of_jobs rfl (fun _ => ?_) (fun j hp hid => ?_) ?_ h
        · exact ⟨rfl, rfl⟩
        · have hjob : task.jobId = jobId := (of_decide_eq_true hp).symm.trans hid
          have hcounts : waitsIn s jobId l = true := by
            simp [waitsIn, htask, hjob, not_not.mp hwaits]
          rw [if_pos hcounts]
        · split <;> norm_num

/-- Expiring sessions of different tasks counts those that wait. -/
theorem expireSessions_spent (x : Txn) {rows : List LiveSession} {n : ℤ}
    (hdistinct : (rows.map LiveSession.taskId).Nodup)
    (h : Spent jobId n (rows.foldl (fun s l => expireSession x l s) s)) :
    Spent jobId (n + rows.countP (waitsIn s jobId)) s := by
  induction rows generalizing s with
  | nil => simpa using h
  | cons l rows ih =>
      rw [List.map_cons, List.nodup_cons] at hdistinct
      have hrest := ih hdistinct.2 h
      have hcount : rows.countP (waitsIn (expireSession x l s) jobId) =
          rows.countP (waitsIn s jobId) := by
        refine List.countP_congr fun k hk => ?_
        rw [expireSession_waitsIn x fun heq => hdistinct.1 (heq ▸ List.mem_map_of_mem hk)]
      rw [hcount] at hrest
      rw [List.countP_cons]
      push_cast
      rw [← add_assoc]
      exact expireSession_spent x hrest

/-- `expire_due` within the limit leaves no job overrun. -/
theorem not_overrun_expireDue {x : Txn} (hwithin : ExpiresWithin x s) :
    ¬ Overrun jobId (expireDue x s) := by
  rintro ⟨hlimit, hqueued⟩
  have hdistinct : ((s.sessions.select (Sessions.due x.now)).map LiveSession.taskId).Nodup := by
    refine List.Nodup.map_on (fun l hl k hk heq => ?_) (Table.nodup_select _ _)
    exact Table.eq_of_clash (Table.mem_select.mp hl).1 (Table.mem_select.mp hk).1
      (by simp [Clashes, Keyed.clash, Keyed.key, heq])
  rw [Sessions.expireDue_eq] at hlimit
  have hspent := expireSessions_spent x hdistinct (spent_zero.mpr hlimit)
  rw [zero_add] at hspent
  obtain ⟨j, hj, rfl, hfailed⟩ := hspent
  obtain ⟨t', ht', hp⟩ := Table.any_eq_true.mp hqueued
  simp only [Bool.and_eq_true, decide_eq_true_eq] at hp
  have hwinds := (Sessions.expireSessions_ends x (s.sessions.select (Sessions.due x.now))
    (setSessions (Sessions.due x.now) .expired s)).1
  rw [← Sessions.expireDue_eq] at hwinds
  obtain ⟨t, ht, hid, hjob, hstate⟩ := hwinds.queued t' ht' hp.2
  obtain ⟨hwaits, l, hl, hdue, htask⟩ :=
    hwithin j hj hfailed t ht (hjob.trans hp.1) (hstate ▸ hp.2)
  exact Sessions.expireDue_ends x s l hl hdue t' ht' (hid.symm.trans htask.symm)
    (hstate.symm.trans hwaits)

end Counting

end Limits

end CrawlTrove
