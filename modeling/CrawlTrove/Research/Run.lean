import CrawlTrove.Relational.FirstSeen
import CrawlTrove.Relational.Transaction

/-!
# Research runs

`ResearchManager` (`app/research.py`) for one run: `run_research` with its loop, cut
where it writes to the disk or calls the scraper, and the process around it, which
may crash at any time. What the language model, the search and the scraper answer
comes with the events, and so does whether the disk takes a checkpoint; `normalizeUrl`
is `normalize_url`. An event that the run is not waiting for changes nothing.
-/

namespace CrawlTrove.Research

open Relational FirstSeen

/-! ## The job and its loop -/

inductive Status
  | queued | planning | searching | reading | synthesizing | interrupted
  | completed | failed | cancelled
deriving DecidableEq, Repr

/-- `TERMINAL`. -/
def Status.terminal : Status → Bool
  | .completed | .failed | .cancelled => true
  | _ => false

/-- A page that has been read. -/
structure Source where
  url : String
  relevant : Bool
deriving DecidableEq

structure ResearchJob where
  seedUrls : List String
  maxRounds : ℕ
  maxPages : ℕ
  llmCallCap : ℕ
  status : Status := .queued
  roundsRun : ℕ := 0
  pagesScraped : ℕ := 0
  llmCalls : ℕ := 0
  sources : List Source := []
  insufficient : Bool := false
  cancelRequested : Bool := false
  error : Option String := none
deriving DecidableEq

/-- `create_job`; the cap is `DEFAULT_LLM_CALL_CAP`. -/
def createJob (seedUrls : List String) (maxRounds maxPages : ℕ) : ResearchJob :=
  { seedUrls, maxRounds, maxPages, llmCallCap := 40 }

inductive Phase
  | search | read
deriving DecidableEq, Repr

/-- The state of the loop, `_fresh_state` at first. -/
structure LoopState where
  seen : Finset String := ∅
  pending : List String := []
  queries : Option (List String) := none
  roundNo : ℕ := 0
  phase : Phase := .search
deriving DecidableEq

/-- A checkpoint. -/
structure Saved where
  job : ResearchJob
  loop : LoopState
deriving DecidableEq

/-- What `run_research` does next. -/
inductive Point
  /-- Write the first checkpoint. -/
  | entered
  /-- Ask for the queries, if there are none. -/
  | planning
  /-- Begin this round. -/
  | round (roundNo : ℕ)
  /-- Take the next URL, or assess when there is none. -/
  | reading
  /-- Pass the URL to the scraper. -/
  | claimed (url : String)
  /-- Wait for the scraper. -/
  | scraping (url : String)
  /-- The loop has been left: write the report. -/
  | winding
  /-- The status is terminal: save the artifact. -/
  | finished
  /-- Delete the checkpoint. -/
  | saved
  | ended
deriving DecidableEq

/-- What the process has of the run. -/
inductive Process
  | absent
  /-- Restored, the loop parked for `resume_research`. -/
  | interrupted (job : ResearchJob) (loop : LoopState)
  | running (job : ResearchJob) (loop : LoopState) (point : Point)
deriving DecidableEq

/-- The process, the checkpoint file and the artifacts on the disk, and what has been
written to the checkpoint and passed to the scraper so far. -/
structure System where
  process : Process
  /-- The next checkpoint can be encoded, and the disk takes it. -/
  writable : Bool := true
  checkpoint : Option Saved := none
  artifacts : List ResearchJob := []
  written : List Saved := []
  scraped : List String := []
deriving DecidableEq

/-! ## Events -/

/-- What becomes of a page, with the answer of `take_notes` for one that is read. -/
inductive PageOutcome
  | crashed
  | failed
  | read (relevant : Except String Bool)

/-- The answer of `assess`. -/
structure Verdict where
  enough : Bool
  newQueries : List String

/-- An answer is an `error` where the call raises; `timeUp` says that the deadline has
passed. -/
inductive Event
  | cancel
  | start (timeUp : Bool)
  | plan (queries : Except String (List String))
  /-- The URLs found by all searches of the round, and those the model names. -/
  | select (timeUp : Bool) (found urls : Except String (List String))
  | claim (timeUp : Bool)
  | scrape
  | page (outcome : PageOutcome)
  | assess (timeUp : Bool) (verdict : Except String Verdict)
  /-- The answer of `synthesize`: whether the sources are insufficient. -/
  | synthesize (insufficient : Except String Bool)
  | save (ok : Bool)
  | delete (ok : Bool)
  | disk (writable : Bool)
  | crash
  | restore
  | resume

/-! ## The steps of the loop -/

/-- How the loop is left by an exception. -/
inductive Exit
  | stopRun
  | raised (message : String)

/-- `_llm`. -/
def llm {α : Type} (job : ResearchJob) (answer : Except String α) :
    ResearchJob × Except Exit α :=
  if job.llmCallCap ≤ job.llmCalls then (job, .error .stopRun)
  else
    ({ job with llmCalls := job.llmCalls + 1 },
      match answer with
      | .ok a => .ok a
      | .error message => .error (.raised message))

/-- `_check`, as what it makes of the run. -/
def stops (job : ResearchJob) (timeUp : Bool) : Bool := job.cancelRequested || timeUp

/-- The first round of a call of `_loop`. -/
def startRound (loop : LoopState) : ℕ :=
  max 1 (if loop.phase = .read then loop.roundNo else loop.roundNo + 1)

/-- The rounds go up to `max_rounds`; behind it the loop is left. -/
def roundPoint (job : ResearchJob) (roundNo : ℕ) : Point :=
  if roundNo ≤ job.maxRounds then .round roundNo else .winding

/-- `_read_page` once the scraper has returned. -/
def readPage (job : ResearchJob) (url : String) (outcome : PageOutcome) :
    ResearchJob × Except Exit Unit :=
  match outcome with
  | .crashed => (job, .ok ())
  | .failed => ({ job with pagesScraped := job.pagesScraped + 1 }, .ok ())
  | .read notes =>
      match llm { job with pagesScraped := job.pagesScraped + 1 } notes with
      | (job, .error exit) => (job, .error exit)
      | (job, .ok relevant) => ({ job with sources := job.sources ++ [⟨url, relevant⟩] }, .ok ())

/-- `_synthesize` and the status behind it. -/
def conclude (job : ResearchJob) (answer : Except String Bool) : ResearchJob :=
  let job := { job with status := .synthesizing }
  let job :=
    if job.sources.any Source.relevant then
      let job := { job with llmCalls := job.llmCalls + 1 }
      match answer with
      | .ok insufficient => { job with insufficient := insufficient }
      | .error message =>
          { job with error := job.error <|> some ("synthesis failed: " ++ message) }
    else { job with insufficient := true }
  { job with
    status :=
      if job.error.isSome then .failed else if job.cancelRequested then .cancelled
      else .completed }

@[simp] theorem conclude_maxPages (job : ResearchJob) (answer : Except String Bool) :
    (conclude job answer).maxPages = job.maxPages := by
  by_cases h : job.sources.any Source.relevant = true
  · cases answer <;> simp [conclude, h]
  · simp [conclude, h]

@[simp] theorem conclude_pagesScraped (job : ResearchJob) (answer : Except String Bool) :
    (conclude job answer).pagesScraped = job.pagesScraped := by
  by_cases h : job.sources.any Source.relevant = true
  · cases answer <;> simp [conclude, h]
  · simp [conclude, h]

section

variable (normalizeUrl : String → String)

/-- The URLs of the search results that are kept: the first of each normal form that
is not among the seen ones. -/
def freshResults (seen : Finset String) (found : List String) : List String :=
  firstsBy normalizeUrl [] (found.filter fun u =>
    "http".toList.isPrefixOf u.toList ∧ normalizeUrl u ∉ seen)

/-- `select_urls`, given the `urls` of the answer. -/
def selectUrls (candidates urls : List String) (k : ℕ) : List String :=
  (urls.filter (· ∈ candidates)).take k

def budgetLeft (job : ResearchJob) : ℕ := job.maxPages - job.pagesScraped

/-- The pending URLs that a round reads first. -/
def keptPending (job : ResearchJob) (loop : LoopState) : List String :=
  (loop.pending.filter fun u => normalizeUrl u ∉ loop.seen).take (budgetLeft job)

/-- There is something to select from, and room for it. -/
def Selects (job : ResearchJob) (loop : LoopState) (found : List String) : Prop :=
  freshResults normalizeUrl loop.seen found ≠ [] ∧
    0 < budgetLeft job - (keptPending normalizeUrl job loop).length

instance (job : ResearchJob) (loop : LoopState) (found : List String) :
    Decidable (Selects normalizeUrl job loop found) := inferInstanceAs (Decidable (_ ∧ _))

/-- The URLs added to the pending ones, given the `urls` of the answer;
`PICK_PER_ROUND` is 6. -/
def newPicks (job : ResearchJob) (loop : LoopState) (found urls : List String) : List String :=
  let kept := keptPending normalizeUrl job loop
  (selectUrls (freshResults normalizeUrl loop.seen found) urls
    (min 6 (budgetLeft job - kept.length))).filter (· ∉ kept)

end

/-! ## The steps of the system -/

namespace System

/-- The run goes on, in memory. -/
def go (s : System) (job : ResearchJob) (loop : LoopState) (point : Point) : System :=
  { s with process := .running job loop point }

/-- `_checkpoint`, and the run goes on. A failure is swallowed, and the file stays. -/
def store (s : System) (job : ResearchJob) (loop : LoopState) (point : Point) : System :=
  if s.writable then
    { s.go job loop point with
      checkpoint := some ⟨job, loop⟩
      written := s.written ++ [⟨job, loop⟩] }
  else s.go job loop point

/-- The loop is left by an exception. -/
def leave (s : System) (job : ResearchJob) (loop : LoopState) (exit : Exit) : System :=
  match exit with
  | .stopRun => s.go job loop .winding
  | .raised message => s.go { job with error := some message } loop .winding

end System

section

variable (normalizeUrl : String → String)

/-- The queries, and the seeds as the first pending URLs. -/
def planStep (s : System) (job : ResearchJob) (loop : LoopState)
    (queries : Except String (List String)) : System :=
  if loop.queries.isSome then s.go job loop (roundPoint job (startRound loop))
  else
    match llm { job with status := .planning } queries with
    | (job, .error exit) => s.leave job loop exit
    | (job, .ok queries) =>
        let loop := { loop with
          queries := some queries
          pending := job.seedUrls.filter fun u => normalizeUrl u ∉ loop.seen }
        s.store job loop (roundPoint job (startRound loop))

/-- A round up to the first URL: in phase `read` it is resumed. -/
def selectStep (s : System) (job : ResearchJob) (loop : LoopState) (roundNo : ℕ) (timeUp : Bool)
    (found urls : Except String (List String)) : System :=
  if stops job timeUp ∨ job.maxPages ≤ job.pagesScraped then s.leave job loop .stopRun
  else
    let job := { job with roundsRun := max job.roundsRun roundNo }
    let loop := { loop with roundNo := roundNo }
    if loop.phase = .read then s.go job loop .reading
    else
      let job := { job with status := .searching }
      match found with
      | .error message => s.leave job loop (.raised message)
      | .ok found =>
          let kept := keptPending normalizeUrl job loop
          if Selects normalizeUrl job loop found then
            match llm job urls with
            | (job, .error exit) => s.leave job loop exit
            | (job, .ok urls) =>
                s.store job
                  { loop with
                    pending := kept ++ newPicks normalizeUrl job loop found urls
                    phase := .read } .reading
          else s.store job { loop with pending := kept, phase := .read } .reading

/-- The next URL is claimed on the disk. -/
def claimStep (s : System) (job : ResearchJob) (loop : LoopState) (timeUp : Bool) : System :=
  match loop.pending with
  | [] => s
  | url :: pending =>
      let job := { job with status := .reading }
      if stops job timeUp ∨ job.maxPages ≤ job.pagesScraped then s.leave job loop .stopRun
      else
        s.store job { loop with pending := pending, seen := insert (normalizeUrl url) loop.seen }
          (.claimed url)

end

/-- What the scraper has returned. -/
def pageStep (s : System) (job : ResearchJob) (loop : LoopState) (url : String)
    (outcome : PageOutcome) : System :=
  match readPage job url outcome with
  | (job, .error exit) => s.leave job loop exit
  | (job, .ok ()) => s.store job loop .reading

/-- The end of a round. -/
def assessStep (s : System) (job : ResearchJob) (loop : LoopState) (timeUp : Bool)
    (verdict : Except String Verdict) : System :=
  if loop.pending ≠ [] then s
  else if stops job timeUp then s.leave { job with status := .reading } loop .stopRun
  else
    match llm { job with status := .planning } verdict with
    | (job, .error exit) => s.leave job loop exit
    | (job, .ok verdict) =>
        if verdict.enough ∨ verdict.newQueries = [] then s.go job loop .winding
        else
          let loop := { loop with queries := some verdict.newQueries, phase := .search }
          s.store job loop (roundPoint job (loop.roundNo + 1))

/-- `restore_from_checkpoints`, at startup. -/
def restoreStep (s : System) : System :=
  match s.checkpoint with
  | none => s
  | some ⟨job, loop⟩ =>
      if job.status.terminal then { s with checkpoint := none }
      else { s with process := .interrupted { job with status := .interrupted } loop }

/-- `cancel`. -/
def cancelStep (s : System) : System :=
  match s.process with
  | .absent => s
  | .interrupted job loop =>
      { s with process := .interrupted { job with cancelRequested := true } loop }
  | .running job loop point =>
      if job.status.terminal then s else s.go { job with cancelRequested := true } loop point

section

variable (normalizeUrl : String → String)

/-- A step of a run that is going on. -/
def runStep (s : System) (job : ResearchJob) (loop : LoopState) (point : Point) (e : Event) :
    System :=
  match point, e with
  | .entered, .start timeUp => s.store job loop (if timeUp then .winding else .planning)
  | .planning, .plan queries => planStep normalizeUrl s job loop queries
  | .round roundNo, .select timeUp found urls =>
      selectStep normalizeUrl s job loop roundNo timeUp found urls
  | .reading, .claim timeUp => claimStep normalizeUrl s job loop timeUp
  | .claimed url, .scrape => { s.go job loop (.scraping url) with scraped := s.scraped ++ [url] }
  | .scraping url, .page outcome => pageStep s job loop url outcome
  | .reading, .assess timeUp verdict => assessStep s job loop timeUp verdict
  | .winding, .synthesize answer => s.go (conclude job answer) loop .finished
  | .finished, .save ok =>
      if ok then { s.go job loop .saved with artifacts := s.artifacts ++ [job] }
      else s.go job loop .ended
  | .saved, .delete ok =>
      { s.go job loop .ended with checkpoint := if ok then none else s.checkpoint }
  | _, _ => s

def step (e : Event) (s : System) : System :=
  match e, s.process with
  | .crash, _ => { s with process := .absent }
  | .cancel, _ => cancelStep s
  | .disk writable, _ => { s with writable }
  | .restore, .absent => restoreStep s
  | .resume, .interrupted job loop => s.go { job with status := .queued } loop .entered
  | e, .running job loop point => runStep normalizeUrl s job loop point e
  | _, _ => s

/-- A new job whose run has been started. -/
def started (job : ResearchJob) : System where
  process := .running job {} .entered

def run (job : ResearchJob) (events : List Event) : System :=
  runFrom (step normalizeUrl) (started job) events

variable {normalizeUrl}

/-- What a step of a run that is going on can do. -/
theorem runStep_cases {P : System → Prop} {s : System} {job : ResearchJob} {loop : LoopState}
    {point : Point} {e : Event}
    (start : ∀ timeUp, point = .entered → e = .start timeUp →
      P (s.store job loop (if timeUp then .winding else .planning)))
    (plan : ∀ queries, point = .planning → e = .plan queries →
      P (planStep normalizeUrl s job loop queries))
    (select : ∀ roundNo timeUp found urls, point = .round roundNo →
      e = .select timeUp found urls →
      P (selectStep normalizeUrl s job loop roundNo timeUp found urls))
    (claim : ∀ timeUp, point = .reading → e = .claim timeUp →
      P (claimStep normalizeUrl s job loop timeUp))
    (scrape : ∀ url, point = .claimed url → e = .scrape →
      P { s.go job loop (.scraping url) with scraped := s.scraped ++ [url] })
    (page : ∀ url outcome, point = .scraping url → e = .page outcome →
      P (pageStep s job loop url outcome))
    (assess : ∀ timeUp verdict, point = .reading → e = .assess timeUp verdict →
      P (assessStep s job loop timeUp verdict))
    (synthesize : ∀ answer, point = .winding → e = .synthesize answer →
      P (s.go (conclude job answer) loop .finished))
    (save : point = .finished → e = .save true →
      P { s.go job loop .saved with artifacts := s.artifacts ++ [job] })
    (saveFails : point = .finished → e = .save false → P (s.go job loop .ended))
    (delete : point = .saved → e = .delete true →
      P { s.go job loop .ended with checkpoint := none })
    (deleteFails : point = .saved → e = .delete false → P (s.go job loop .ended))
    (stay : P s) : P (runStep normalizeUrl s job loop point e) := by
  unfold runStep
  split
  · exact start _ rfl rfl
  · exact plan _ rfl rfl
  · exact select _ _ _ _ rfl rfl
  · exact claim _ rfl rfl
  · exact scrape _ rfl rfl
  · exact page _ _ rfl rfl
  · exact assess _ _ rfl rfl
  · exact synthesize _ rfl rfl
  · rename_i ok
    cases ok with
    | false => exact saveFails rfl rfl
    | true => exact save rfl rfl
  · rename_i ok
    cases ok with
    | false => exact deleteFails rfl rfl
    | true => exact delete rfl rfl
  · exact stay

/-- What a step can do to the process. -/
theorem step_cases {P : System → Prop} {s : System} {e : Event}
    (crash : e = .crash → P { s with process := .absent })
    (cancel : e = .cancel → P (cancelStep s))
    (disk : ∀ writable, e = .disk writable → P { s with writable })
    (restore : e = .restore → s.process = .absent → P (restoreStep s))
    (resume : ∀ job loop, e = .resume → s.process = .interrupted job loop →
      P (s.go { job with status := .queued } loop .entered))
    (run : ∀ job loop point, s.process = .running job loop point →
      P (runStep normalizeUrl s job loop point e))
    (stay : P s) : P (step normalizeUrl e s) := by
  unfold step
  split
  · exact crash rfl
  · exact cancel rfl
  · exact disk _ rfl
  · rename_i hprocess
    exact restore rfl hprocess
  · rename_i hprocess
    exact resume _ _ rfl hprocess
  · rename_i hprocess
    exact run _ _ _ hprocess
  · exact stay

end

end CrawlTrove.Research
