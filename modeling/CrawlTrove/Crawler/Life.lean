import CrawlTrove.Checkpoints.Life
import CrawlTrove.Crawler.Run

/-!
# The life of a crawl

A crawl in the process is a checkpointed run as well. The workers write their last
checkpoint before the queue is done, and the status becomes terminal after it.
-/

namespace CrawlTrove.Crawler

open Relational

def Point.stage : Point → Checkpoints.Stage
  | .finished => .finished
  | .saved => .saved
  | .ended => .ended
  | _ => .working

def Process.stage : Process → Checkpoints.Stage
  | .absent => .absent
  | .interrupted _ _ => .interrupted
  | .running _ _ point => point.stage

/-- The crawl as `Checkpoints.Life` sees it. -/
def System.life (s : System) : Checkpoints.Life Saved where
  stage := s.process.stage
  disk := s.checkpoint
  written := s.written
  artifacts := s.artifacts.length

/-- The statuses before the end. -/
structure Open (s : System) : Prop where
  disk : ∀ saved, s.checkpoint = some saved → saved.job.status.terminal = false
  working : ∀ job loop point, s.process = .running job loop point → point.stage = .working →
    job.status.terminal = false

/-- The checkpoint is deleted right after the artifact has been saved. -/
def Careful (e : Event) (s : System) : Prop :=
  e ≠ .delete false ∧ (e = .crash → ∀ job loop, s.process ≠ .running job loop .saved)

/-- A step that is a move, a careful one where the step is, with nothing terminal
before the end. -/
def Goes (e : Event) (s s' : System) : Prop :=
  (∃ m, Checkpoints.Step m s.life s'.life ∧ (Careful e s → Checkpoints.Careful m s.life)) ∧
    Open s'

variable {normalizeUrl : String → String} {s : System} {job job' : CrawlJob}
  {loop loop' : LoopState} {point point' : Point} {e : Event}

theorem goes_stay (h : Open s) (e : Event) : Goes e s s :=
  ⟨⟨.work, .work _, fun _ => ⟨by simp, by simp⟩⟩, h⟩

theorem Open.go (h : Open s) (hjob : point.stage = .working → job.status.terminal = false) :
    Open (s.go job loop point) where
  disk := h.disk
  working := by
    rintro _ _ _ ⟨⟩
    exact hjob

theorem goes_go (h : Open s) (hprocess : s.process = .running job loop point)
    (hpoint : point.stage = .working) (hpoint' : point'.stage = .working)
    (hjob : job'.status.terminal = false) : Goes e s (s.go job' loop' point') := by
  have hlife : (s.go job' loop' point').life = s.life := by
    simp [System.life, System.go, hprocess, Process.stage, hpoint, hpoint']
  refine ⟨⟨.work, ?_, fun _ => ⟨by simp, by simp⟩⟩, h.go fun _ => hjob⟩
  rw [hlife]
  exact .work _

theorem goes_store (h : Open s) (hprocess : s.process = .running job loop point)
    (hpoint : point.stage = .working) (hpoint' : point'.stage = .working)
    (hjob : job'.status.terminal = false) : Goes e s (s.store job' loop' point') := by
  have hgo : Goes e s (s.go job' loop' point') := goes_go h hprocess hpoint hpoint' hjob
  unfold System.store
  split_ifs
  · have hlife : ({ s.go job' loop' point' with
        checkpoint := some ⟨job', loop'⟩
        written := s.written ++ [⟨job', loop'⟩] } : System).life =
        { s.life with disk := some ⟨job', loop'⟩, written := s.written ++ [⟨job', loop'⟩] } := by
      simp [System.life, System.go, hprocess, Process.stage, hpoint, hpoint']
    refine ⟨⟨.write, ?_, fun _ => ⟨by simp, by simp⟩⟩, ?_, hgo.2.working⟩
    · rw [hlife]
      exact .write _ _ (by simp [System.life, hprocess, Process.stage, hpoint])
    · rintro _ ⟨⟩
      exact hjob
  · exact hgo

theorem goes_startStep (h : Open s) {resumed : Bool}
    (hprocess : s.process = .running job loop (.entered resumed)) (sitemap : Option (List String)) :
    Goes e s (startStep normalizeUrl s job loop resumed sitemap) := by
  unfold startStep
  simp only
  split_ifs
  · exact goes_store h hprocess rfl rfl rfl
  · cases sitemap with
    | none => exact goes_store h hprocess rfl rfl rfl
    | some seeded => exact goes_store h hprocess rfl rfl rfl

theorem goes_takeStep (h : Open s) {queue : List (String × ℕ)} {inFlight : List InFlight}
    (hprocess : s.process = .running job loop (.crawling queue inFlight))
    (hjob : job.status.terminal = false) :
    Goes e s (takeStep normalizeUrl s job loop queue inFlight) := by
  unfold takeStep
  cases queue with
  | nil => exact goes_stay h e
  | cons first queue =>
      simp only
      split_ifs
      · exact goes_stay h e
      · exact goes_go h hprocess rfl rfl hjob
      · exact goes_go h hprocess rfl rfl hjob

theorem recordPage_status (job : CrawlJob) (loop : LoopState) (page : InFlight)
    (outcome : PageOutcome) :
    (recordPage normalizeUrl job loop page outcome).1.status = job.status := by
  cases outcome <;> rfl

theorem goes_workStep (h : Open s) {queue : List (String × ℕ)} {inFlight : List InFlight}
    (hprocess : s.process = .running job loop (.crawling queue inFlight)) :
    Goes e s (workStep normalizeUrl s job loop queue inFlight e) := by
  have hjob : job.status.terminal = false := h.working job loop _ hprocess rfl
  cases e with
  | take => exact goes_takeStep h hprocess hjob
  | shot position =>
      simp only [workStep]
      cases inFlight[position]? with
      | none => exact goes_stay h _
      | some page =>
          simp only
          split_ifs
          · exact goes_stay h _
          · exact goes_go h hprocess rfl rfl hjob
  | record position outcome =>
      simp only [workStep]
      cases inFlight[position]? with
      | none => exact goes_stay h _
      | some page =>
          simp only
          split_ifs
          · exact goes_stay h _
          · exact goes_go h hprocess rfl rfl (by rw [recordPage_status]; exact hjob)
  | settle position due =>
      simp only [workStep]
      cases inFlight[position]? with
      | none => exact goes_stay h _
      | some page =>
          simp only
          split_ifs
          · exact goes_stay h _
          · exact goes_store h hprocess rfl rfl hjob
          · exact goes_go h hprocess rfl rfl hjob
  | finish =>
      simp only [workStep]
      by_cases hdone : queue = [] ∧ inFlight = []
      · rw [if_pos hdone]
        refine ⟨⟨.finish, .finish _ ?_, fun _ => ⟨by simp, by simp⟩⟩, h.go (by simp [Point.stage])⟩
        simp [System.life, hprocess, Process.stage, Point.stage]
      · rw [if_neg hdone]
        exact goes_stay h _
  | _ => exact goes_stay h _

theorem goes_runStep (h : Open s) (hprocess : s.process = .running job loop point) :
    Goes e s (runStep normalizeUrl s job loop point e) := by
  have hstage : s.life.stage = point.stage := by simp [System.life, hprocess, Process.stage]
  cases point with
  | entered resumed =>
      cases e with
      | start sitemap => exact goes_startStep h hprocess sitemap
      | _ => exact goes_stay h _
  | crawling queue inFlight => exact goes_workStep h hprocess
  | finished =>
      cases e with
      | save ok =>
          cases ok with
          | false =>
              exact ⟨⟨.saveFails, .saveFails _ hstage, fun _ => ⟨by simp, by simp⟩⟩,
                h.go (by simp [Point.stage])⟩
          | true =>
              refine ⟨⟨.save, ?_, fun _ => ⟨by simp, by simp⟩⟩, h.disk, ?_⟩
              · have hsave := Checkpoints.Step.save s.life hstage
                simpa [runStep, System.life, System.go, Process.stage, Point.stage] using hsave
              · rintro _ _ _ ⟨⟩
                simp [Point.stage]
      | _ => exact goes_stay h _
  | saved =>
      cases e with
      | delete ok =>
          cases ok with
          | false =>
              refine ⟨⟨.deleteFails, .deleteFails _ hstage, fun hcareful => ?_⟩,
                h.go (by simp [Point.stage])⟩
              exact absurd rfl hcareful.1
          | true =>
              refine ⟨⟨.delete, .delete _ hstage, fun _ => ⟨by simp, by simp⟩⟩,
                by simp [runStep], ?_⟩
              rintro _ _ _ ⟨⟩
              simp [Point.stage]
      | _ => exact goes_stay h _
  | ended => exact goes_stay h _

theorem goes_crash (h : Open s) : Goes .crash s { s with process := .absent } := by
  refine ⟨⟨.crash, .crash _, fun hcareful => ⟨by simp, fun _ hsaved => ?_⟩⟩, h.disk,
    by rintro _ _ _ ⟨⟩⟩
  cases hprocess : s.process with
  | absent => simp [System.life, hprocess, Process.stage] at hsaved
  | interrupted job loop => simp [System.life, hprocess, Process.stage] at hsaved
  | running job loop point =>
      have hpoint : point = .saved := by
        cases point <;> simp [System.life, hprocess, Process.stage, Point.stage] at hsaved
        rfl
      exact hcareful.2 rfl job loop (hpoint ▸ hprocess)

theorem goes_restoreStep (h : Open s) (hprocess : s.process = .absent) :
    Goes e s (restoreStep s) := by
  unfold restoreStep
  cases hdisk : s.checkpoint with
  | none => exact goes_stay h e
  | some saved =>
      obtain ⟨job, loop⟩ := saved
      have hopen : job.status.terminal = false := h.disk _ hdisk
      simp only [hopen]
      refine ⟨⟨.restore, ?_, fun _ => ⟨by simp, by simp⟩⟩, ?_, by rintro _ _ _ ⟨⟩⟩
      · have hrestore := Checkpoints.Step.restore s.life ⟨job, loop⟩
          (by simp [System.life, hprocess, Process.stage]) hdisk
        simpa [System.life, Process.stage, hdisk] using hrestore
      · exact fun saved hsaved => h.disk saved (hdisk.trans hsaved)

theorem goes_resumeStep (h : Open s) (hprocess : s.process = .interrupted job loop) :
    Goes e s (resumeStep normalizeUrl s job loop) := by
  refine ⟨⟨.resume, .resume _ ?_, fun _ => ⟨by simp, by simp⟩⟩, h.go fun _ => rfl⟩
  simp [System.life, hprocess, Process.stage]

theorem goes_disk (h : Open s) (writable : Bool) :
    Goes (.disk writable) s { s with writable } :=
  ⟨⟨.work, .work _, fun _ => ⟨by simp, by simp⟩⟩, h.disk, h.working⟩

/-- Every step is a move. -/
theorem goes_step (h : Open s) : Goes e s (step normalizeUrl e s) := by
  cases hprocess : s.process with
  | absent =>
      cases e with
      | crash => exact goes_crash h
      | disk writable => exact goes_disk h writable
      | restore =>
          simp only [step, hprocess]
          exact goes_restoreStep h hprocess
      | _ =>
          simp only [step, hprocess]
          exact goes_stay h _
  | interrupted job loop =>
      cases e with
      | crash => exact goes_crash h
      | disk writable => exact goes_disk h writable
      | resume =>
          simp only [step, hprocess]
          exact goes_resumeStep h hprocess
      | _ =>
          simp only [step, hprocess]
          exact goes_stay h _
  | running job loop point =>
      cases e with
      | crash => exact goes_crash h
      | disk writable => exact goes_disk h writable
      | _ =>
          simp only [step, hprocess]
          exact goes_runStep h hprocess

variable (normalizeUrl) in
/-- A crawl is a checkpointed run. -/
def checkpointed : Checkpoints.Checkpointed (step normalizeUrl) System.life Careful where
  sound := Open
  moves _ _ h := (goes_step h).1
  keeps _ _ h := (goes_step h).2

theorem open_started (job : CrawlJob) (hjob : job.status.terminal = false) :
    Open (started job) where
  disk := by rintro _ ⟨⟩
  working := by
    rintro _ _ _ ⟨⟩
    exact fun _ => hjob

end CrawlTrove.Crawler
