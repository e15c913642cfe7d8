import CrawlTrove.Crawler.Life
import CrawlTrove.Research.Life

/-!
# Restarts of finished runs

Between its artifact and the deletion of its checkpoint a run is finished in memory
only. A crash there, or a checkpoint that cannot be deleted, leaves a checkpoint with
the status of the last page, and the next restart takes the run for interrupted.
-/

namespace CrawlTrove.Checkpoints

open Relational

/-! ## Research runs -/

/-- There is at most one artifact; and once there is, the run is neither restored nor
resumed. -/
def ResearchFinished (s : Research.System) : Prop :=
  s.artifacts.length ≤ 1 ∧
    (s.artifacts ≠ [] → s.process.stage ≠ .interrupted ∧ s.process.stage ≠ .working)

/-- As long as there is no artifact, a crash and a restart restore the run from the
last checkpoint that was written, if one was. -/
def ResearchRestored (normalizeUrl : String → String) (s : Research.System) : Prop :=
  s.artifacts = [] → ∀ saved, s.written.getLast? = some saved →
    (runFrom (Research.step normalizeUrl) s [.crash, .restore]).process =
      .interrupted { saved.job with status := .interrupted } saved.loop

theorem researchFinished_of_once {s : Research.System} (h : Once s.life) : ResearchFinished s := by
  refine ⟨h.le, ?_⟩
  intro hsaved
  obtain ⟨hinterrupted, hworking, -⟩ := h.settled (List.length_pos_of_ne_nil hsaved)
  exact ⟨hinterrupted, hworking⟩

theorem researchRestored_of_kept {normalizeUrl : String → String} {s : Research.System}
    (h : Kept s.life) (hopen : Research.Open s) : ResearchRestored normalizeUrl s := by
  intro hnone saved hlast
  have hdisk : s.checkpoint = some saved :=
    (h.disk (List.length_eq_zero_iff.mpr hnone)).trans hlast
  have hstatus : saved.job.status.terminal = false := hopen.disk saved hdisk
  simp [Research.step, Research.restoreStep, hdisk, hstatus]

/-! ## Crawls -/

def CrawlFinished (s : Crawler.System) : Prop :=
  s.artifacts.length ≤ 1 ∧
    (s.artifacts ≠ [] → s.process.stage ≠ .interrupted ∧ s.process.stage ≠ .working)

def CrawlRestored (normalizeUrl : String → String) (s : Crawler.System) : Prop :=
  s.artifacts = [] → ∀ saved, s.written.getLast? = some saved →
    (runFrom (Crawler.step normalizeUrl) s [.crash, .restore]).process =
      .interrupted { saved.job with status := .interrupted } saved.loop

theorem crawlFinished_of_once {s : Crawler.System} (h : Once s.life) : CrawlFinished s := by
  refine ⟨h.le, ?_⟩
  intro hsaved
  obtain ⟨hinterrupted, hworking, -⟩ := h.settled (List.length_pos_of_ne_nil hsaved)
  exact ⟨hinterrupted, hworking⟩

theorem crawlRestored_of_kept {normalizeUrl : String → String} {s : Crawler.System}
    (h : Kept s.life) (hopen : Crawler.Open s) : CrawlRestored normalizeUrl s := by
  intro hnone saved hlast
  have hdisk : s.checkpoint = some saved :=
    (h.disk (List.length_eq_zero_iff.mpr hnone)).trans hlast
  have hstatus : saved.job.status.terminal = false := hopen.disk saved hdisk
  simp [Crawler.step, Crawler.restoreStep, hdisk, hstatus]

/-! ## Both -/

/-- A new research job and a new crawl job. -/
def newResearch (seedUrls : List String) (maxRounds maxPages : ℕ) : Research.System :=
  Research.started (Research.createJob seedUrls maxRounds maxPages)

def newCrawl (baseUrl : String) (limit maxDepth : ℕ) (useSitemap screenshots : Bool) :
    Crawler.System :=
  Crawler.started { baseUrl, limit, maxDepth, useSitemap, screenshots }

theorem finished_for_good (normalizeUrl : String → String) :
    (∀ seedUrls maxRounds maxPages events,
      ResearchRestored normalizeUrl
          (runFrom (Research.step normalizeUrl) (newResearch seedUrls maxRounds maxPages) events) ∧
        (StepsMeet (Research.step normalizeUrl) Research.Careful
            (newResearch seedUrls maxRounds maxPages) events →
          ResearchFinished (runFrom (Research.step normalizeUrl)
            (newResearch seedUrls maxRounds maxPages) events))) ∧
      ∀ baseUrl limit maxDepth useSitemap screenshots events,
        CrawlRestored normalizeUrl (runFrom (Crawler.step normalizeUrl)
            (newCrawl baseUrl limit maxDepth useSitemap screenshots) events) ∧
          (StepsMeet (Crawler.step normalizeUrl) Crawler.Careful
              (newCrawl baseUrl limit maxDepth useSitemap screenshots) events →
            CrawlFinished (runFrom (Crawler.step normalizeUrl)
              (newCrawl baseUrl limit maxDepth useSitemap screenshots) events)) := by
  constructor
  · intro seedUrls maxRounds maxPages events
    have hopen : Research.Open (newResearch seedUrls maxRounds maxPages) :=
      Research.open_started _ rfl
    have hkept : Kept (newResearch seedUrls maxRounds maxPages).life :=
      ⟨Stage.noConfusion, fun _ => rfl⟩
    constructor
    · exact researchRestored_of_kept
        ((Research.checkpointed normalizeUrl).kept_run hopen hkept events)
        ((Research.checkpointed normalizeUrl).sound_run hopen events)
    · intro hcareful
      exact researchFinished_of_once
        ((Research.checkpointed normalizeUrl).once_run hopen rfl hcareful)
  · intro baseUrl limit maxDepth useSitemap screenshots events
    have hopen : Crawler.Open (newCrawl baseUrl limit maxDepth useSitemap screenshots) :=
      Crawler.open_started _ rfl
    have hkept : Kept (newCrawl baseUrl limit maxDepth useSitemap screenshots).life :=
      ⟨Stage.noConfusion, fun _ => rfl⟩
    constructor
    · exact crawlRestored_of_kept
        ((Crawler.checkpointed normalizeUrl).kept_run hopen hkept events)
        ((Crawler.checkpointed normalizeUrl).sound_run hopen events)
    · intro hcareful
      exact crawlFinished_of_once
        ((Crawler.checkpointed normalizeUrl).once_run hopen rfl hcareful)

namespace Sample

/-- A research run that a crash cuts off behind its artifact: it is run again and
saved again. -/
def savedTwice : List Research.Event :=
  [.start false, .plan (.error "no answer"), .synthesize (.ok true), .save true, .crash, .restore,
    .resume, .start false, .plan (.error "no answer"), .synthesize (.ok true), .save true]

/-- A crawl of one page, cut off there as well. -/
def crawledTwice : List Crawler.Event :=
  [.start none, .take, .record 0 (.scraped []), .settle 0 false, .finish, .save true, .crash,
    .restore, .resume, .start none, .take, .record 0 (.scraped []), .settle 0 false, .finish,
    .save true]

theorem saved_twice :
    (runFrom (Research.step id) (newResearch [] 4 25) savedTwice).artifacts.length = 2 ∧
      (runFrom (Crawler.step id) (newCrawl "https://a.org" 10 3 false false)
        crawledTwice).artifacts.length = 2 := by
  decide

/-- The crashes come at other times: while a page is read, and when all is over. -/
def crashedElsewhere : List Research.Event :=
  [.start false, .plan (.ok ["actors"]), .crash, .restore, .resume, .start true,
    .synthesize (.ok true), .save true, .delete true, .crash, .restore]

theorem finished_for_good_crashedElsewhere :
    ResearchFinished (runFrom (Research.step id) (newResearch [] 4 25) crashedElsewhere) := by
  refine (((finished_for_good id).1 [] 4 25 crashedElsewhere).2 ?_)
  refine ⟨?_, ?_, ?_, ?_, ?_, ?_, ?_, ?_, ?_, ?_, ?_, trivial⟩
  all_goals
    refine ⟨by simp, ?_⟩
    intro he job loop hprocess
    cases he <;> cases hprocess

end Sample

end CrawlTrove.Checkpoints
