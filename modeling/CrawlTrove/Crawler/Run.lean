import CrawlTrove.Relational.Transaction

/-!
# Crawls in the process

`WebCrawler` (`app/crawler.py`) for one crawl: `run_crawl` with its three workers,
and the process around it, which may crash at any time. What the sitemaps and the
scraper give, the links of a page among it, comes with the events, and so does
whether a checkpoint is due and whether the disk takes it; `normalizeUrl` is
`normalize_url`. An event that the crawl is not waiting for changes nothing.
-/

namespace CrawlTrove.Crawler

open Relational

inductive Status
  | pending | processing | interrupted | completed | failed
deriving DecidableEq, Repr

/-- `TERMINAL`. -/
def Status.terminal : Status → Bool
  | .completed | .failed => true
  | _ => false

/-- The job; of a result and of an error the URL is kept. -/
structure CrawlJob where
  baseUrl : String
  limit : ℕ
  maxDepth : ℕ
  useSitemap : Bool := true
  screenshots : Bool := false
  status : Status := .pending
  processedUrlsCount : ℕ := 0
  sitemapUrlsFound : ℕ := 0
  results : List String := []
  errors : List String := []
deriving DecidableEq

/-- The state of the loop. -/
structure LoopState where
  visited : Finset String := ∅
  pending : List (String × ℕ)
  shotCounter : ℕ := 0
deriving DecidableEq

/-- `_fresh_state`. -/
def freshState (baseUrl : String) : LoopState := { pending := [(baseUrl, 0)] }

/-- A checkpoint. -/
structure Saved where
  job : CrawlJob
  loop : LoopState
deriving DecidableEq

/-- A page a worker has claimed; `recorded` once it is in the job. -/
structure InFlight where
  url : String
  depth : ℕ
  recorded : Bool := false
deriving DecidableEq

/-- What `run_crawl` does next. -/
inductive Point
  /-- Seed the frontier, unless resumed, and write the first checkpoint. -/
  | entered (resumed : Bool)
  /-- The workers are at it: the queue and the claimed pages. -/
  | crawling (queue : List (String × ℕ)) (inFlight : List InFlight)
  /-- The status is terminal: save the artifact. -/
  | finished
  /-- Delete the checkpoint. -/
  | saved
  | ended
deriving DecidableEq

inductive Process
  | absent
  | interrupted (job : CrawlJob) (loop : LoopState)
  | running (job : CrawlJob) (loop : LoopState) (point : Point)
deriving DecidableEq

/-- The process, the checkpoint file and the artifacts on the disk, and all that has
been written to the checkpoint. -/
structure System where
  process : Process
  /-- The next checkpoint can be encoded, and the disk takes it. -/
  writable : Bool := true
  checkpoint : Option Saved := none
  artifacts : List CrawlJob := []
  written : List Saved := []
deriving DecidableEq

/-- What becomes of a page: one that was scraped has the links that `_extract_links` finds,
or `_extract_links` raises (`urljoin` does on some `href`s). -/
inductive PageOutcome
  | scraped (links : List String)
  | linksRaised
  | failed
  | raised

inductive Event
  /-- What the sitemaps list, `none` when discovery fails. -/
  | start (sitemap : Option (List String))
  /-- A worker takes the next URL. -/
  | take
  /-- The page at this position gets a screenshot, or goes into the job. -/
  | shot (position : ℕ)
  | record (position : ℕ) (outcome : PageOutcome)
  /-- The worker is done with its page; `due` says that a checkpoint is. -/
  | settle (position : ℕ) (due : Bool)
  | finish
  | save (ok : Bool)
  | delete (ok : Bool)
  | disk (writable : Bool)
  | crash
  | restore
  | resume

namespace System

/-- The crawl goes on, in memory. -/
def go (s : System) (job : CrawlJob) (loop : LoopState) (point : Point) : System :=
  { s with process := .running job loop point }

/-- `_checkpoint`, and the crawl goes on. A failure is swallowed, and the file stays. -/
def store (s : System) (job : CrawlJob) (loop : LoopState) (point : Point) : System :=
  if s.writable then
    { s.go job loop point with
      checkpoint := some ⟨job, loop⟩
      written := s.written ++ [⟨job, loop⟩] }
  else s.go job loop point

end System

section

variable (normalizeUrl : String → String)

def startStep (s : System) (job : CrawlJob) (loop : LoopState) (resumed : Bool)
    (sitemap : Option (List String)) : System :=
  let job := { job with status := .processing }
  if resumed ∨ job.useSitemap = false then s.store job loop (.crawling loop.pending [])
  else
    match sitemap with
    | none => s.store job loop (.crawling loop.pending [])
    | some seeded =>
        let job := { job with sitemapUrlsFound := seeded.length }
        let others := seeded.filter fun u => normalizeUrl u ≠ normalizeUrl job.baseUrl
        let loop := { loop with pending := loop.pending ++ others.map fun u => (u, 1) }
        s.store job loop (.crawling loop.pending [])

/-- The next URL is claimed, or dropped when it has been visited or the limit is
reached. -/
def takeStep (s : System) (job : CrawlJob) (loop : LoopState) (queue : List (String × ℕ))
    (inFlight : List InFlight) : System :=
  match queue with
  | [] => s
  | (url, depth) :: queue =>
      if 3 ≤ inFlight.length then s
      else
        let loop := { loop with pending := loop.pending.erase (url, depth) }
        if normalizeUrl url ∈ loop.visited ∨ job.limit ≤ loop.visited.card then
          s.go job loop (.crawling queue inFlight)
        else
          s.go job { loop with visited := insert (normalizeUrl url) loop.visited }
            (.crawling queue (inFlight ++ [{ url, depth }]))

/-- The links of a page are looked at. -/
def followsLinks (job : CrawlJob) (loop : LoopState) (page : InFlight) : Bool :=
  page.depth < job.maxDepth && loop.visited.card < job.limit

/-- What a page adds to the job and to the frontier. -/
def recordPage (job : CrawlJob) (loop : LoopState) (page : InFlight) (outcome : PageOutcome) :
    CrawlJob × List (String × ℕ) :=
  match outcome with
  | .raised => ({ job with errors := job.errors ++ [page.url] }, [])
  | .failed =>
      ({ job with
          processedUrlsCount := loop.visited.card
          errors := job.errors ++ [page.url] }, [])
  | .scraped links =>
      ({ job with
          processedUrlsCount := loop.visited.card
          results := job.results ++ [page.url] },
        if followsLinks job loop page then
          (links.filter fun u => normalizeUrl u ∉ loop.visited).map fun u => (u, page.depth + 1)
        else [])
  | .linksRaised =>
      -- the page is a result already when the handler of the worker adds it to the errors
      ({ job with
          processedUrlsCount := loop.visited.card
          results := job.results ++ [page.url]
          errors := if followsLinks job loop page then job.errors ++ [page.url] else job.errors },
        [])

/-- A step of the workers. -/
def workStep (s : System) (job : CrawlJob) (loop : LoopState) (queue : List (String × ℕ))
    (inFlight : List InFlight) (e : Event) : System :=
  match e with
  | .take => takeStep normalizeUrl s job loop queue inFlight
  | .shot position =>
      match inFlight[position]? with
      | some page =>
          if page.recorded ∨ job.screenshots = false then s
          else
            s.go job { loop with shotCounter := loop.shotCounter + 1 } (.crawling queue inFlight)
      | none => s
  | .record position outcome =>
      match inFlight[position]? with
      | some page =>
          if page.recorded then s
          else
            let (job, found) := recordPage normalizeUrl job loop page outcome
            s.go job { loop with pending := loop.pending ++ found }
              (.crawling (queue ++ found)
                (inFlight.set position { page with recorded := true }))
      | none => s
  | .settle position due =>
      match inFlight[position]? with
      | some page =>
          if page.recorded = false then s
          else if due then s.store job loop (.crawling queue (inFlight.eraseIdx position))
          else s.go job loop (.crawling queue (inFlight.eraseIdx position))
      | none => s
  | .finish =>
      if queue = [] ∧ inFlight = [] then
        s.go { job with status := if job.results ≠ [] then .completed else .failed } loop .finished
      else s
  | _ => s

/-- `restore_from_checkpoints`, at startup. -/
def restoreStep (s : System) : System :=
  match s.checkpoint with
  | none => s
  | some ⟨job, loop⟩ =>
      if job.status.terminal then { s with checkpoint := none }
      else { s with process := .interrupted { job with status := .interrupted } loop }

/-- `resume_crawl`: what was in flight is neither visited nor pending any more. -/
def resumeStep (s : System) (job : CrawlJob) (loop : LoopState) : System :=
  let processed := (job.results ++ job.errors).map normalizeUrl
  s.go { job with status := .pending }
    { loop with visited := loop.visited.filter fun u => u ∈ processed } (.entered true)

/-- A step of a crawl that is going on. -/
def runStep (s : System) (job : CrawlJob) (loop : LoopState) (point : Point) (e : Event) :
    System :=
  match point, e with
  | .entered resumed, .start sitemap => startStep normalizeUrl s job loop resumed sitemap
  | .crawling queue inFlight, e => workStep normalizeUrl s job loop queue inFlight e
  | .finished, .save ok =>
      if ok then { s.go job loop .saved with artifacts := s.artifacts ++ [job] }
      else s.go job loop .ended
  | .saved, .delete ok =>
      { s.go job loop .ended with checkpoint := if ok then none else s.checkpoint }
  | _, _ => s

def step (e : Event) (s : System) : System :=
  match e, s.process with
  | .crash, _ => { s with process := .absent }
  | .disk writable, _ => { s with writable }
  | .restore, .absent => restoreStep s
  | .resume, .interrupted job loop => resumeStep normalizeUrl s job loop
  | e, .running job loop point => runStep normalizeUrl s job loop point e
  | _, _ => s

/-- A new crawl that has been started. -/
def started (job : CrawlJob) : System where
  process := .running job (freshState job.baseUrl) (.entered false)

def run (job : CrawlJob) (events : List Event) : System :=
  runFrom (step normalizeUrl) (started job) events

end

end CrawlTrove.Crawler
