import CrawlTrove.Store.Lease

/-!
# Provider attempts of the core repository

`reserve_acquisition_attempt` and `finish_acquisition_attempt`: a provider
call is reserved against the job's ledger under the current lease and
settled once.
-/

namespace CrawlTrove

open Relational Transaction Numerals

/-- Rows of the task with a lease token: its provider attempts. -/
def Store.providerAttempts (s : Store) (taskId : Uuid) : List Attempt :=
  s.attempts.select fun a => a.taskId = taskId && a.leaseToken.isSome

/-- Provider attempts of the task on one route. -/
def Store.routeAttempts (s : Store) (taskId : Uuid) (route : Route) : List Attempt :=
  s.attempts.select fun a => a.taskId = taskId && a.route = some route && a.leaseToken.isSome

/-- `total_cap`: the provider attempts one task may have. -/
def attemptCap (config : CrawlConfig) : ℤ := min 4 config.acquisition.maxAttempts

/-- The caps leave room for one more attempt on the route. -/
def Store.attemptAllowed (s : Store) (config : CrawlConfig) (taskId : Uuid) (route : Route) :
    Bool :=
  decide (((s.providerAttempts taskId).length : ℤ) < attemptCap config) &&
    decide (((s.routeAttempts taskId route).length : ℤ) < min 2 (attemptCap config))

/-- Every meter of the route has a ledger row with enough left. -/
def Store.covers (s : Store) (jobId : Uuid) (route : Route) (cost : Meter → Numeral) : Bool :=
  route.meters.all fun m =>
    match s.usage? jobId route.provider m with
    | none => false
    | some u => decide ((cost m).value ≤ u.limitValue - u.reservedValue - u.consumedValue)

/-- The row of a new provider attempt. -/
def providerAttempt (id : Uuid) (task : Task) (route : Route) (workerId : Option String)
    (token : Uuid) (cost : Meter → Numeral) (earlier : ℕ) : Attempt :=
  { id
    jobId := task.jobId
    taskId := task.id
    attemptNumber := task.attemptCount * 1000 + earlier + 1
    route := some route
    provider := some route.provider
    workerId
    leaseToken := some token
    reservedCost := { native := cost } }

/-- A reserved provider call, as `reserve_acquisition_attempt` returns it. -/
structure ReservedAcquisitionAttempt where
  id : Uuid
  taskId : Uuid
  route : Route
  provider : Provider
  reservedCost : Meter → Numeral

/-- `reserve_acquisition_attempt`. -/
def reserveAcquisitionAttempt (x : Txn) (taskId token : Uuid) (route : Route)
    (reservedCost : PyValues) : Tx (Option ReservedAcquisitionAttempt) := do
  match nativeCost route reservedCost.toNativeValues with
  | .error message => raise (.protocol message)
  | .ok cost => do
      match ← activeLease x taskId token with
      | none => return none
      | some f => do
          if !(← read fun s => s.attemptAllowed f.job.config taskId route) then
            return none
          else if !(← read fun s => s.covers f.task.jobId route cost) then
            return none
          else do
            let earlier ← read fun s => (s.providerAttempts taskId).length
            adjustMeters f.task.jobId route.provider (fun m => (cost m).value) (fun _ => 0)
              route.meters
            attempt .integrityViolation <| Store.insertAttempt <|
              providerAttempt (x.uuid 0) f.task route none token cost earlier
            return some ⟨x.uuid 0, taskId, route, route.provider, cost⟩

/-- Settle a provider attempt: release what its reservation reads as, consume
what it actually cost, and record the outcome. -/
def settleAttempt (x : Txn) (jobId : Uuid) (a : Attempt) (route : Route)
    (reserved actual : Meter → Numeral) (outcome : Option String) (costEstimated : Bool) :
    Tx PUnit := do
  adjustMeters jobId route.provider (fun m => -(reserved m).value) (fun m => (actual m).value)
    route.meters
  exec <| Store.updateAttempts (fun b => b.id = a.id) fun b =>
    { b with
      finishedAt := some x.now
      actualCost := { native := actual }
      outcome
      costEstimated }

/-- `finish_acquisition_attempt`. -/
def finishAcquisitionAttempt (x : Txn) (attemptId token : Uuid) (outcome : String)
    (actualCost : PyValues) (costEstimated : Bool) : Tx Bool := do
  match ← read fun s => s.attempts.find? fun a => a.id = attemptId with
  | none => return false
  | some a =>
      if a.leaseToken ≠ some token then return false
      else do
        match ← activeLease x a.taskId token with
        | none => return false
        | some f => do
            if a.finishedAt.isSome then
              return false
            else
              match a.route with
              | none => raise (.protocol "unknown acquisition route")
              | some route =>
                  match nativeCost route actualCost.toNativeValues with
                  | .error message => raise (.protocol message)
                  | .ok actual =>
                      match nativeCost route (a.reservedCost.loads route).toNativeValues with
                      | .error message => raise (.protocol message)
                      | .ok reserved =>
                          if a.provider ≠ some route.provider then
                            raise (.protocol "provider attempt route does not match its ledger")
                          else if route.meters.any fun m =>
                              decide ((reserved m).value < (actual m).value) then
                            raise (.protocol "provider reported more native usage than reserved")
                          else do
                            settleAttempt x f.task.jobId a route reserved actual (some outcome)
                              costEstimated
                            return true

end CrawlTrove
