import CrawlTrove.Relational.Table
import CrawlTrove.Relational.Transaction
import CrawlTrove.Store.Config

/-!
# Scheduled job definitions

`claim_due_jobs`, `launch_job` and the loops that call them. A loop claims a
batch in one transaction and launches it one definition after the other, each
in a transaction of its own; anything may happen in between. What decides how a
launch ends (the validation of the parameters, the database) comes with the
event. Schedules are read as ASCII.
-/

namespace CrawlTrove.Scheduling

open Relational

/-! ## `schedule_spec` -/

/-- `_MIN_INTERVAL_S`. -/
def minIntervalSeconds : ℤ := 5

/-- `_UNIT_SECONDS`. -/
def unitSeconds : Char → Option ℤ
  | 's' => some 1
  | 'm' => some 60
  | 'h' => some 3600
  | 'd' => some 86400
  | 'w' => some 604800
  | _ => none

/-- `_ALIASES`. -/
def aliasSeconds (s : List Char) : Option ℤ :=
  [("@minutely".toList, 60), ("@hourly".toList, 3600), ("@daily".toList, 86400),
    ("@weekly".toList, 604800)].lookup s

def stripSpaces (s : List Char) : List Char :=
  ((s.dropWhile Char.isWhitespace).reverse.dropWhile Char.isWhitespace).reverse

def digitsValue (digits : List Char) : ℤ :=
  digits.foldl (fun n c => 10 * n + (c.toNat - '0'.toNat)) 0

/-- A number of seconds, or a number and a unit. -/
def parseAmount (s : List Char) : Option ℤ :=
  let digits := s.takeWhile Char.isDigit
  if digits.isEmpty then none
  else
    match (s.drop digits.length).dropWhile Char.isWhitespace with
    | [] =>
        if s.length = digits.length then some (max minIntervalSeconds (digitsValue digits)) else none
    | [unit] => (unitSeconds unit).map fun n => max minIntervalSeconds (digitsValue digits * n)
    | _ => none

/-- `parse_interval_seconds`. -/
def parseIntervalSeconds (schedule : Option String) : Option ℤ :=
  let s := stripSpaces ((schedule.getD "").toList.map Char.toLower)
  if ["".toList, "manual".toList, "none".toList, "off".toList].contains s then none
  else
    match aliasSeconds s with
    | some n => some n
    | none =>
        parseAmount (if "every ".toList.isPrefixOf s then stripSpaces (s.drop 6) else s)

/-- `next_run_at`. -/
def nextRunAt (schedule : Option String) (now : Time) : Option Time :=
  (parseIntervalSeconds schedule).map fun n => now + seconds n

/-! ## Rows -/

/-- A row of `scrape_jobs`. -/
structure Definition where
  id : ℕ
  kind : String := "scrape"
  targetUrl : Option String := none
  schedule : Option String := none
  enabled : Bool := true
  lastRunAt : Option Time := none
  nextRunAt : Option Time := none
deriving DecidableEq

instance : Keyed Definition where
  Key := ℕ
  key d := d.id
  clash a b := a = b
  clash_refl := by simp
  clash_symm a b := by simp [eq_comm]

inductive Trigger
  | manual | schedule
deriving DecidableEq

/-- The status of a run; `over` stands for every final one. -/
inductive RunStatus
  | pending | processing
  | over (status : String)
deriving DecidableEq

/-- A row of `scrape_runs`. -/
structure Run where
  id : ℕ
  jobId : Option ℕ
  trigger : Trigger
  status : RunStatus
deriving DecidableEq

/-- `status IN ('pending','processing')`. -/
def Run.inFlight (r : Run) : Bool := r.status = .pending || r.status = .processing

/-- The tables, the definitions every loop has claimed and not launched yet, and
what it has claimed and tried to launch so far. -/
structure System where
  jobs : Table Definition
  runs : List Run := []
  queue : ℕ → List Definition := fun _ => []
  claimed : ℕ → List Definition := fun _ => []
  attempted : ℕ → List Definition := fun _ => []

/-! ## `claim_due_jobs` -/

/-- Enabled and due, and no other transaction holds the row. -/
def Definition.due (now : Time) (locked : ℕ → Bool) (d : Definition) : Bool :=
  d.enabled && d.nextRunAt.any (· ≤ now) && !locked d.id

/-- `ORDER BY next_run_at`. -/
def Definition.notAfter (a b : Definition) : Prop := a.nextRunAt.getD 0 ≤ b.nextRunAt.getD 0

instance : DecidableRel Definition.notAfter := fun _ _ => inferInstanceAs (Decidable (_ ≤ _))

/-- The rows a claim locks. -/
def System.dueRows (s : System) (now : Time) (locked : ℕ → Bool) : List Definition :=
  ((s.jobs.select (·.due now locked)).insertionSort Definition.notAfter).take 10

/-- The overlap guard finds a run. -/
def System.active (s : System) (id : ℕ) : Bool := s.runs.any fun r => r.jobId = some id && r.inFlight

/-- The rows whose turn comes before an exception, if there is one. -/
def System.handled (s : System) (now : Time) (locked : ℕ → Bool) (failsAt : Option ℕ) :
    List Definition :=
  match failsAt with
  | none => s.dueRows now locked
  | some k => (s.dueRows now locked).take k

/-- `claim_due_jobs`: the definitions to launch and the table it leaves. An
exception rolls the table back, but what was collected is returned. -/
def System.claimDueJobs (s : System) (now : Time) (locked : ℕ → Bool) (failsAt : Option ℕ) :
    List Definition × Table Definition :=
  ((s.handled now locked failsAt).filter fun d => !s.active d.id,
    if failsAt.isSome then s.jobs
    else
      s.jobs.update (fun d => (s.dueRows now locked).any fun row => row.id = d.id) fun d =>
        { d with lastRunAt := some now, nextRunAt := nextRunAt d.schedule now })

/-! ## `launch_job` -/

/-- How the writes of a launch end: with an exception before the run is there,
with one after it is committed, or well. -/
inductive Fate
  | fails | lost | succeeds
deriving DecidableEq

/-- `(kind or "scrape").lower() == "crawl"`. -/
def Definition.isCrawl (d : Definition) : Bool := d.kind.toList.map Char.toLower = "crawl".toList

def Definition.hasTarget (d : Definition) : Bool := d.targetUrl.any (· ≠ "")

/-- The insert of the run fails where the definition is gone. -/
def System.fate (s : System) (d : Definition) (fate : Fate) : Fate :=
  if s.jobs.any fun row => row.id = d.id then fate else .fails

/-- The launch raises: only `submit_crawl` and what follows it do. -/
def System.raises (s : System) (d : Definition) (fate : Fate) : Bool :=
  d.isCrawl && d.hasTarget && s.fate d fate ≠ .succeeds

/-- The launch leaves a run. -/
def System.starts (s : System) (d : Definition) (fate : Fate) : Bool :=
  (!d.isCrawl || d.hasTarget) && s.fate d fate ≠ .fails

/-- The runs after `launch_job`. -/
def System.launchJob (s : System) (d : Definition) (trigger : Trigger) (fate : Fate) : List Run :=
  if s.starts d fate then
    s.runs ++ [{ id := s.runs.length, jobId := some d.id, trigger, status := .pending }]
  else s.runs

/-! ## Steps -/

/-- What happens, one transaction at a time. -/
inductive Event
  | claim (loop : ℕ) (now : Time) (locked : ℕ → Bool) (failsAt : Option ℕ)
  /-- The loop launches the next definition of its batch. -/
  | launch (loop : ℕ) (fate : Fate)
  /-- `POST /jobs/{job_id}/run`. -/
  | runJob (d : Definition) (fate : Fate)
  /-- `mark_run_processing`, which comes before the run is finished. -/
  | begin (run : ℕ)
  | finish (run : ℕ) (status : String)
  /-- Definitions are added, changed and deleted. -/
  | edit (jobs : Table Definition)

/-- The update of a run's status. -/
def System.setStatus (s : System) (p : Run → Bool) (status : RunStatus) : System :=
  { s with runs := s.runs.map fun r => if p r then { r with status } else r }

/-- One event. A loop claims only when it is through with its batch; a launch
that raises ends the tick. -/
def step (e : Event) (s : System) : System :=
  match e with
  | .claim loop now locked failsAt =>
      match s.queue loop with
      | _ :: _ => s
      | [] =>
          let (launch, jobs) := s.claimDueJobs now locked failsAt
          { s with
            jobs
            queue := Function.update s.queue loop launch
            claimed := Function.update s.claimed loop (s.claimed loop ++ launch) }
  | .launch loop fate =>
      match s.queue loop with
      | [] => s
      | d :: rest =>
          { s with
            runs := s.launchJob d .schedule fate
            queue := Function.update s.queue loop (if s.raises d fate then [] else rest)
            attempted := Function.update s.attempted loop (s.attempted loop ++ [d]) }
  | .runJob d fate => { s with runs := s.launchJob d .manual fate }
  | .begin run => s.setStatus (fun r => r.id = run && r.status = .pending) .processing
  | .finish run status => s.setStatus (fun r => r.id = run) (.over status)
  | .edit jobs =>
      { s with
        jobs
        -- `ON DELETE SET NULL`.
        runs := s.runs.map fun r =>
          if r.jobId.any fun id => !jobs.any fun d => d.id = id then { r with jobId := none } else r }

/-- Before any loop has started. -/
def start (jobs : Table Definition) : System := { jobs }

end CrawlTrove.Scheduling
