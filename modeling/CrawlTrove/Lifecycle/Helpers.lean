import CrawlTrove.Relational.Steps
import CrawlTrove.Store.System

/-!
# The helper transactions, for any relation

Most transactions begin with the fence, which may end the lease and settle its
provider reservations, or with the identity of the worker. What these helpers
do to the store follows from what `_terminalize` and a change of ledger and
attempts do to it.
-/

namespace CrawlTrove

open Relational Transaction Numerals

namespace Lifecycle

section Helpers

variable {R : Store → Store → Prop}

/-- A change of ledger and attempts is a step of `R`. -/
def LedgerSteps (R : Store → Store → Prop) : Prop :=
  ∀ (s : Store) (usage : Table Usage) (attempts : Table Attempt), R s { s with usage, attempts }

/-- So is the end of a lease in a state that leaves nothing queued. -/
def ExitSteps (R : Store → Store → Prop) : Prop :=
  ∀ (now : Time) (f : FencedTask) (state : TaskState) (errorClass errorCode : Option String)
    (s : Store), state.queued = false → R s (terminalize now f state errorClass errorCode s)

/-- A statement, and what follows it. -/
theorem exec_bind_steps [IsTrans Store R] {α : Type} {f : Store → Store} {k : PUnit → Tx α}
    (h : ∀ s, R s (f s)) (hk : Steps R (k ⟨⟩)) : Steps R (exec f >>= k) :=
  (Steps.exec h).bind fun _ => hk

/-- An insert, and what follows it. -/
theorem attempt_bind_steps [IsTrans Store R] {α : Type} {e : DbError} {f : Store → Option Store}
    {k : PUnit → Tx α} (h : ∀ s s', f s = some s' → R s s') (hk : Steps R (k ⟨⟩)) :
    Steps R (attempt e f >>= k) :=
  (Steps.attempt h).bind fun _ => hk

theorem insertAttempt_steps (h : LedgerSteps R) {a : Attempt} (s s' : Store)
    (hs : s.insertAttempt a = some s') : R s s' := by
  obtain ⟨T, -, rfl⟩ := Option.map_eq_some_iff.mp hs
  exact h s s.usage T

theorem updateAttempts_steps (h : LedgerSteps R) (p : Attempt → Bool) (g : Attempt → Attempt)
    (hg : ∀ r, Keyed.key (g r) = Keyed.key r) (s : Store) : R s (s.updateAttempts p g hg) :=
  h s s.usage _

theorem castInt_steps [Std.Refl R] (default : ℤ) (v : ReportedInt) :
    Steps R (WorkerApi.castInt default v) := by
  unfold WorkerApi.castInt
  cases v.sql? default with
  | none => exact Steps.raise _
  | some n => exact Steps.pure _

variable [Std.Refl R] [IsTrans Store R]

/-! ## Ledger and attempts -/

theorem adjustUsage_steps (h : LedgerSteps R) (jobId : Uuid) (provider : Provider) (meter : Meter)
    (reserved consumed : ℚ) : Steps R (adjustUsage jobId provider meter reserved consumed) := by
  unfold adjustUsage
  refine Steps.read_bind fun found => ?_
  cases found with
  | none => exact Steps.raise _
  | some u => exact Steps.ite (Steps.exec fun s => h s _ s.attempts) (Steps.raise _)

theorem adjustMeters_steps (h : LedgerSteps R) (jobId : Uuid) (provider : Provider)
    (reserved consumed : Meter → ℚ) (meters : List Meter) :
    Steps R (adjustMeters jobId provider reserved consumed meters) := by
  induction meters with
  | nil => exact Steps.pure _
  | cons m meters ih => exact (adjustUsage_steps h ..).bind fun _ => ih

theorem consumeAbandoned_steps (h : LedgerSteps R) (x : Txn) (a : Attempt) :
    Steps R (consumeAbandoned x a) := by
  have hclosed : ∀ p g hg, Steps R (exec fun s => s.updateAttempts p g hg : Tx PUnit) :=
    fun p g hg => Steps.exec (updateAttempts_steps h p g hg)
  unfold consumeAbandoned
  cases a.route with
  | none => exact Steps.raise _
  | some route =>
      dsimp only
      cases nativeCost route (a.reservedCost.loads route).toNativeValues with
      | error message => exact Steps.raise _
      | ok reserved =>
          exact Steps.ite ((adjustMeters_steps h ..).bind fun _ => hclosed ..) (hclosed ..)

theorem consumeAll_steps (h : LedgerSteps R) (x : Txn) (attempts : List Attempt) :
    Steps R (consumeAll x attempts) := by
  induction attempts with
  | nil => exact Steps.pure _
  | cons a attempts ih => exact (consumeAbandoned_steps h ..).bind fun _ => ih

theorem reconcileAbandoned_steps (h : LedgerSteps R) (x : Txn) (only : Option Uuid) :
    Steps R (reconcileAbandoned x only) :=
  Steps.read_bind fun _ => consumeAll_steps h ..

theorem settleAttempt_steps (h : LedgerSteps R) (x : Txn) (jobId : Uuid) (a : Attempt)
    (route : Route) (reserved actual : Meter → Numeral) (outcome : Option String)
    (costEstimated : Bool) :
    Steps R (settleAttempt x jobId a route reserved actual outcome costEstimated) :=
  (adjustMeters_steps h ..).bind fun _ => Steps.exec (updateAttempts_steps h _ _ _)

/-! ## Fences -/

theorem rejectInactiveLease_steps (h : LedgerSteps R) (hexit : ExitSteps R) (x : Txn)
    (f : FencedTask) : Steps R (rejectInactiveLease x f) := by
  unfold rejectInactiveLease
  refine Steps.ite ?_ (Steps.ite ?_ (Steps.pure _))
  · exact exec_bind_steps (fun s => hexit _ _ _ _ _ s rfl) <|
      Steps.bind (reconcileAbandoned_steps h ..) fun _ => Steps.pure _
  · exact exec_bind_steps (fun s => hexit _ _ _ _ _ s rfl) <|
      Steps.bind (reconcileAbandoned_steps h ..) fun _ => Steps.pure _

theorem activeLease_steps (h : LedgerSteps R) (hexit : ExitSteps R) (x : Txn)
    (taskId token : Uuid) : Steps R (activeLease x taskId token) := by
  unfold activeLease
  refine Steps.read_bind fun found => ?_
  cases found with
  | none => exact Steps.pure _
  | some f =>
      refine (rejectInactiveLease_steps h hexit ..).bind fun rejected => ?_
      exact Steps.ite (Steps.pure _) (Steps.pure _)

theorem identity_steps (role : String) (draining : Bool) :
    Steps R (WorkerApi.identity role draining) := by
  unfold WorkerApi.identity
  refine Steps.read_bind fun found => ?_
  cases found with
  | none => exact Steps.raise _
  | some worker => exact Steps.pure _

/-! ## Transactions that only move ledger and attempts under a fence -/

theorem reserveAcquisitionAttempt_steps (h : LedgerSteps R) (hexit : ExitSteps R) (x : Txn)
    (taskId token : Uuid) (route : Route) (reservedCost : PyValues) :
    Steps R (reserveAcquisitionAttempt x taskId token route reservedCost) := by
  unfold reserveAcquisitionAttempt
  cases nativeCost route reservedCost.toNativeValues with
  | error message => exact Steps.raise _
  | ok cost =>
      refine (activeLease_steps h hexit ..).bind fun found => ?_
      cases found with
      | none => exact Steps.pure _
      | some f =>
          refine Steps.read_bind fun allowed => Steps.ite (Steps.pure _) ?_
          refine Steps.read_bind fun covered => Steps.ite (Steps.pure _) ?_
          exact Steps.read_bind fun _ => (adjustMeters_steps h ..).bind fun _ =>
            attempt_bind_steps (insertAttempt_steps h) <| Steps.pure _

theorem finishAcquisitionAttempt_steps (h : LedgerSteps R) (hexit : ExitSteps R) (x : Txn)
    (attemptId token : Uuid) (outcome : String) (actualCost : PyValues)
    (costEstimated : Bool) :
    Steps R (finishAcquisitionAttempt x attemptId token outcome actualCost costEstimated) := by
  unfold finishAcquisitionAttempt
  refine Steps.read_bind fun found => ?_
  cases found with
  | none => exact Steps.pure _
  | some a =>
      refine Steps.ite (Steps.pure _) ((activeLease_steps h hexit ..).bind fun found => ?_)
      cases found with
      | none => exact Steps.pure _
      | some f =>
          refine Steps.ite (Steps.pure _) ?_
          cases a.route with
          | none => exact Steps.raise _
          | some route =>
              dsimp only
              cases nativeCost route actualCost.toNativeValues with
              | error message => exact Steps.raise _
              | ok actual =>
                  dsimp only
                  cases nativeCost route (a.reservedCost.loads route).toNativeValues with
                  | error message => exact Steps.raise _
                  | ok reserved =>
                      refine Steps.ite (Steps.raise _) (Steps.ite (Steps.raise _) ?_)
                      exact (settleAttempt_steps h ..).bind fun _ => Steps.pure _

theorem reserveProviderAttempt_steps (h : LedgerSteps R) (x : Txn) (role : String)
    (taskId token : Uuid) (route : Route) (reserved : NativeValues) :
    Steps R (WorkerApi.reserveProviderAttempt x role taskId token route reserved) := by
  unfold WorkerApi.reserveProviderAttempt
  refine (identity_steps ..).bind fun worker => ?_
  cases nativeCost route reserved with
  | error message => exact Steps.raise _
  | ok cost =>
      refine Steps.ite (Steps.raise _) (Steps.read_bind fun found => ?_)
      cases found with
      | none => exact Steps.pure _
      | some f =>
          refine Steps.read_bind fun allowed => Steps.ite (Steps.pure _) ?_
          refine Steps.read_bind fun covered => Steps.ite (Steps.pure _) ?_
          exact Steps.read_bind fun _ => (adjustMeters_steps h ..).bind fun _ =>
            attempt_bind_steps (insertAttempt_steps h) <| Steps.pure _

theorem finishProviderAttempt_steps (h : LedgerSteps R) (x : Txn) (role : String)
    (attemptId token : Uuid) (outcome : Option String) (actual : NativeValues) (estimated : Bool) :
    Steps R (WorkerApi.finishProviderAttempt x role attemptId token outcome actual estimated) := by
  unfold WorkerApi.finishProviderAttempt
  refine (identity_steps ..).bind fun worker => Steps.ite (Steps.raise _) ?_
  refine Steps.read_bind fun found => ?_
  cases found with
  | none => exact Steps.pure _
  | some a =>
      refine Steps.ite (Steps.pure _) ?_
      cases a.route with
      | none => exact Steps.raise _
      | some route =>
          refine Steps.ite (Steps.raise _) (Steps.read_bind fun found => ?_)
          cases found with
          | none => exact Steps.pure _
          | some f =>
              refine Steps.ite (Steps.raise _) ?_
              exact (settleAttempt_steps h ..).bind fun _ => Steps.pure _

end Helpers

end Lifecycle

end CrawlTrove
