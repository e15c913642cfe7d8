import CrawlTrove.Checkpoints.Life
import CrawlTrove.Research.Run

/-!
# The life of a research run

A research run is a checkpointed run: its steps are the moves of `Checkpoints.Life`.
No checkpoint ever holds a terminal status, since the last one is written before the
run is concluded; so a restore never takes a run for finished.
-/

namespace CrawlTrove.Research

open Relational

def Point.stage : Point → Checkpoints.Stage
  | .finished => .finished
  | .saved => .saved
  | .ended => .ended
  | _ => .working

def Process.stage : Process → Checkpoints.Stage
  | .absent => .absent
  | .interrupted _ _ => .interrupted
  | .running _ _ point => point.stage

/-- The run as `Checkpoints.Life` sees it. -/
def System.life (s : System) : Checkpoints.Life Saved where
  stage := s.process.stage
  disk := s.checkpoint
  written := s.written
  artifacts := s.artifacts.length

/-- The statuses before the conclusion. -/
structure Open (s : System) : Prop where
  disk : ∀ saved, s.checkpoint = some saved → saved.job.status.terminal = false
  working : ∀ job loop point, s.process = .running job loop point → point.stage = .working →
    job.status.terminal = false

/-- The checkpoint is deleted right after the artifact has been saved. -/
def Careful (e : Event) (s : System) : Prop :=
  e ≠ .delete false ∧ (e = .crash → ∀ job loop, s.process ≠ .running job loop .saved)

/-- A step that is a move, and a careful one where the step is. -/
def Moves (e : Event) (s s' : System) : Prop :=
  ∃ m, Checkpoints.Step m s.life s'.life ∧ (Careful e s → Checkpoints.Careful m s.life)

variable {normalizeUrl : String → String} {s : System} {job job' : ResearchJob}
  {loop loop' : LoopState} {point point' : Point} {e : Event}

theorem moves_stay (e : Event) (s : System) : Moves e s s :=
  ⟨.work, .work _, fun _ => ⟨by simp, by simp⟩⟩

/-- The run goes on working. -/
theorem moves_go (hprocess : s.process = .running job loop point) (hpoint : point.stage = .working)
    (hpoint' : point'.stage = .working) : Moves e s (s.go job' loop' point') := by
  have hlife : (s.go job' loop' point').life = s.life := by
    simp [System.life, System.go, hprocess, Process.stage, hpoint, hpoint']
  refine ⟨.work, ?_, fun _ => ⟨by simp, by simp⟩⟩
  rw [hlife]
  exact .work _

theorem moves_store (hprocess : s.process = .running job loop point)
    (hpoint : point.stage = .working) (hpoint' : point'.stage = .working) :
    Moves e s (s.store job' loop' point') := by
  unfold System.store
  split_ifs
  · have hlife : ({ s.go job' loop' point' with
        checkpoint := some ⟨job', loop'⟩
        written := s.written ++ [⟨job', loop'⟩] } : System).life =
        { s.life with disk := some ⟨job', loop'⟩, written := s.written ++ [⟨job', loop'⟩] } := by
      simp [System.life, System.go, hprocess, Process.stage, hpoint, hpoint']
    refine ⟨.write, ?_, fun _ => ⟨by simp, by simp⟩⟩
    rw [hlife]
    exact .write _ _ (by simp [System.life, hprocess, Process.stage, hpoint])
  · exact moves_go hprocess hpoint hpoint'

theorem moves_leave (hprocess : s.process = .running job loop point)
    (hpoint : point.stage = .working) (exit : Exit) : Moves e s (s.leave job' loop' exit) := by
  cases exit with
  | stopRun => exact moves_go hprocess hpoint rfl
  | raised message => exact moves_go hprocess hpoint rfl

@[simp] theorem roundPoint_stage (job : ResearchJob) (roundNo : ℕ) :
    (roundPoint job roundNo).stage = .working := by
  unfold roundPoint
  split_ifs <;> rfl

theorem Open.go (h : Open s) (hjob : point.stage = .working → job.status.terminal = false) :
    Open (s.go job loop point) where
  disk := h.disk
  working := by
    rintro _ _ _ ⟨⟩
    exact hjob

theorem Open.store (h : Open s) (hjob : job.status.terminal = false) :
    Open (s.store job loop point) := by
  have hgo : Open (s.go job loop point) := h.go fun _ => hjob
  unfold System.store
  split_ifs
  · refine ⟨?_, hgo.working⟩
    rintro _ ⟨⟩
    exact hjob
  · exact hgo

theorem Open.leave (h : Open s) (hjob : job.status.terminal = false) (exit : Exit) :
    Open (s.leave job loop exit) := by
  cases exit with
  | stopRun => exact h.go fun _ => hjob
  | raised message => exact h.go fun _ => hjob

@[simp] theorem llm_status {α : Type} (job : ResearchJob) (answer : Except String α) :
    (llm job answer).1.status = job.status := by
  unfold llm
  split_ifs <;> rfl

@[simp] theorem readPage_status (job : ResearchJob) (url : String) (outcome : PageOutcome) :
    (readPage job url outcome).1.status = job.status := by
  cases outcome with
  | crashed => rfl
  | failed => rfl
  | read notes =>
      have hllm := llm_status { job with pagesScraped := job.pagesScraped + 1 } notes
      unfold readPage
      rcases hcall : llm { job with pagesScraped := job.pagesScraped + 1 } notes with
        ⟨job', exit | relevant⟩
      · simpa only [hcall] using hllm
      · simpa only [hcall] using hllm

/-! ## The steps of the loop -/

/-- What a step of the loop does: a move, and nothing terminal before the end. -/
def Goes (e : Event) (s s' : System) : Prop := Moves e s s' ∧ Open s'

theorem goes_go (h : Open s) (hprocess : s.process = .running job loop point)
    (hpoint : point.stage = .working) (hpoint' : point'.stage = .working)
    (hjob : job'.status.terminal = false) : Goes e s (s.go job' loop' point') :=
  ⟨moves_go hprocess hpoint hpoint', h.go fun _ => hjob⟩

theorem goes_store (h : Open s) (hprocess : s.process = .running job loop point)
    (hpoint : point.stage = .working) (hpoint' : point'.stage = .working)
    (hjob : job'.status.terminal = false) : Goes e s (s.store job' loop' point') :=
  ⟨moves_store hprocess hpoint hpoint', h.store hjob⟩

theorem goes_leave (h : Open s) (hprocess : s.process = .running job loop point)
    (hpoint : point.stage = .working) (hjob : job'.status.terminal = false) (exit : Exit) :
    Goes e s (s.leave job' loop' exit) :=
  ⟨moves_leave hprocess hpoint exit, h.leave hjob exit⟩

/-- The status of the job a call of the model leaves. -/
theorem llm_open {α : Type} {answer : Except String α} {r : Except Exit α}
    (hcall : llm job answer = (job', r)) (hjob : job.status.terminal = false) :
    job'.status.terminal = false := by
  have hstatus := llm_status job answer
  rw [hcall] at hstatus
  rw [hstatus]
  exact hjob

theorem goes_planStep (h : Open s) (hprocess : s.process = .running job loop .planning)
    (hjob : job.status.terminal = false) (queries : Except String (List String)) :
    Goes e s (planStep normalizeUrl s job loop queries) := by
  unfold planStep
  split_ifs
  · exact goes_go h hprocess rfl (by simp) hjob
  · rcases hcall : llm { job with status := .planning } queries with ⟨job', exit | queries'⟩
    · exact goes_leave h hprocess rfl (llm_open hcall rfl) exit
    · exact goes_store h hprocess rfl (by simp) (llm_open hcall rfl)

theorem goes_selectStep (h : Open s) {roundNo : ℕ}
    (hprocess : s.process = .running job loop (.round roundNo))
    (hjob : job.status.terminal = false) (timeUp : Bool)
    (found urls : Except String (List String)) :
    Goes e s (selectStep normalizeUrl s job loop roundNo timeUp found urls) := by
  unfold selectStep
  by_cases hstop : stops job timeUp = true ∨ job.maxPages ≤ job.pagesScraped
  · rw [if_pos hstop]
    exact goes_leave h hprocess rfl hjob _
  rw [if_neg hstop]
  by_cases hphase : loop.phase = .read
  · simp only [if_pos hphase]
    exact goes_go h hprocess rfl rfl hjob
  simp only [if_neg hphase]
  cases found with
  | error message => exact goes_leave h hprocess rfl rfl _
  | ok results =>
      simp only
      by_cases hselects : Selects normalizeUrl
          { job with roundsRun := max job.roundsRun roundNo, status := .searching }
          { loop with roundNo := roundNo } results
      · rcases hcall : llm { job with
          roundsRun := max job.roundsRun roundNo, status := .searching } urls with
          ⟨job', exit | urls'⟩
        · simp only [if_pos hselects]
          exact goes_leave h hprocess rfl (llm_open hcall rfl) exit
        · simp only [if_pos hselects]
          exact goes_store h hprocess rfl rfl (llm_open hcall rfl)
      · simp only [if_neg hselects]
        exact goes_store h hprocess rfl rfl rfl

theorem goes_claimStep (h : Open s) (hprocess : s.process = .running job loop .reading)
    (timeUp : Bool) : Goes e s (claimStep normalizeUrl s job loop timeUp) := by
  unfold claimStep
  cases loop.pending with
  | nil => exact ⟨moves_stay e s, h⟩
  | cons url pending =>
      simp only
      split_ifs
      · exact goes_leave h hprocess rfl rfl _
      · exact goes_store h hprocess rfl rfl rfl

theorem goes_pageStep (h : Open s) {url : String}
    (hprocess : s.process = .running job loop (.scraping url))
    (hjob : job.status.terminal = false) (outcome : PageOutcome) :
    Goes e s (pageStep s job loop url outcome) := by
  have hstatus := readPage_status job url outcome
  unfold pageStep
  rcases hcall : readPage job url outcome with ⟨job', exit | ⟨⟩⟩
  · rw [hcall] at hstatus
    exact goes_leave h hprocess rfl (hstatus ▸ hjob) exit
  · rw [hcall] at hstatus
    exact goes_store h hprocess rfl rfl (hstatus ▸ hjob)

theorem goes_assessStep (h : Open s) (hprocess : s.process = .running job loop .reading)
    (timeUp : Bool) (verdict : Except String Verdict) :
    Goes e s (assessStep s job loop timeUp verdict) := by
  unfold assessStep
  split_ifs
  · exact ⟨moves_stay e s, h⟩
  · exact goes_leave h hprocess rfl rfl _
  · rcases hcall : llm { job with status := .planning } verdict with ⟨job', exit | verdict'⟩
    · exact goes_leave h hprocess rfl (llm_open hcall rfl) exit
    · simp only
      split_ifs
      · exact goes_go h hprocess rfl rfl (llm_open hcall rfl)
      · exact goes_store h hprocess rfl (by simp) (llm_open hcall rfl)

theorem goes_runStep (h : Open s) (hprocess : s.process = .running job loop point) :
    Goes e s (runStep normalizeUrl s job loop point e) := by
  have hjob := h.working job loop point hprocess
  have hstage : s.life.stage = point.stage := by simp [System.life, hprocess, Process.stage]
  apply runStep_cases
  case start =>
    rintro timeUp rfl _
    exact goes_store h hprocess rfl (by cases timeUp <;> rfl) (hjob rfl)
  case plan =>
    rintro queries rfl _
    exact goes_planStep h hprocess (hjob rfl) queries
  case select =>
    rintro roundNo timeUp found urls rfl _
    exact goes_selectStep h hprocess (hjob rfl) timeUp found urls
  case claim =>
    rintro timeUp rfl _
    exact goes_claimStep h hprocess timeUp
  case scrape =>
    rintro url rfl _
    have hgo : Goes e s (s.go job loop (.scraping url)) := goes_go h hprocess rfl rfl (hjob rfl)
    exact ⟨hgo.1, hgo.2.disk, hgo.2.working⟩
  case page =>
    rintro url outcome rfl _
    exact goes_pageStep h hprocess (hjob rfl) outcome
  case assess =>
    rintro timeUp verdict rfl _
    exact goes_assessStep h hprocess timeUp verdict
  case synthesize =>
    rintro answer rfl _
    exact ⟨⟨.finish, .finish _ hstage, fun _ => ⟨by simp, by simp⟩⟩,
      h.go (by simp [Point.stage])⟩
  case save =>
    rintro rfl _
    refine ⟨⟨.save, ?_, fun _ => ⟨by simp, by simp⟩⟩, h.disk, ?_⟩
    · have hsave := Checkpoints.Step.save s.life hstage
      simpa [System.life, System.go, Process.stage, Point.stage] using hsave
    · rintro _ _ _ ⟨⟩
      simp [Point.stage]
  case saveFails =>
    rintro rfl _
    exact ⟨⟨.saveFails, .saveFails _ hstage, fun _ => ⟨by simp, by simp⟩⟩,
      h.go (by simp [Point.stage])⟩
  case delete =>
    rintro rfl _
    refine ⟨⟨.delete, .delete _ hstage, fun _ => ⟨by simp, by simp⟩⟩, by simp, ?_⟩
    rintro _ _ _ ⟨⟩
    simp [Point.stage]
  case deleteFails =>
    rintro rfl he
    refine ⟨⟨.deleteFails, .deleteFails _ hstage, fun hcareful => ?_⟩, h.go (by simp [Point.stage])⟩
    exact absurd he hcareful.1
  case stay => exact ⟨moves_stay e s, h⟩

/-- Every step is a move. -/
theorem goes_step (h : Open s) : Goes e s (step normalizeUrl e s) := by
  apply step_cases
  case crash =>
    intro he
    -- a careful crash does not come between saving the report and deleting the checkpoint
    refine ⟨⟨.crash, .crash _, fun hcareful => ⟨by simp, fun _ => ?_⟩⟩, h.disk, ?_⟩
    · intro hsaved
      cases hprocess : s.process with
      | absent => simp [System.life, hprocess, Process.stage] at hsaved
      | interrupted job loop => simp [System.life, hprocess, Process.stage] at hsaved
      | running job loop point =>
          have hpoint : point = .saved := by
            cases point <;> simp [System.life, hprocess, Process.stage, Point.stage] at hsaved
            rfl
          exact hcareful.2 he job loop (hpoint ▸ hprocess)
    · rintro _ _ _ ⟨⟩
  case cancel =>
    intro _
    unfold cancelStep
    cases hprocess : s.process with
    | absent => exact ⟨moves_stay e s, h⟩
    | interrupted job loop =>
        refine ⟨⟨.work, ?_, fun _ => ⟨by simp, by simp⟩⟩, h.disk, by rintro _ _ _ ⟨⟩⟩
        have hwork := Checkpoints.Step.work s.life
        simpa [System.life, hprocess, Process.stage] using hwork
    | running job loop point =>
        simp only
        split_ifs
        · exact ⟨moves_stay e s, h⟩
        · refine ⟨⟨.work, ?_, fun _ => ⟨by simp, by simp⟩⟩,
            h.go (h.working job loop point hprocess)⟩
          have hwork := Checkpoints.Step.work s.life
          simpa [System.life, System.go, hprocess, Process.stage] using hwork
  case disk =>
    intro writable _
    exact ⟨⟨.work, .work _, fun _ => ⟨by simp, by simp⟩⟩, h.disk, h.working⟩
  case restore =>
    intro _ hprocess
    unfold restoreStep
    cases hdisk : s.checkpoint with
    | none => exact ⟨moves_stay e s, h⟩
    | some saved =>
        obtain ⟨job, loop⟩ := saved
        have hopen : job.status.terminal = false := h.disk _ hdisk
        simp only [hopen]
        refine ⟨⟨.restore, ?_, fun _ => ⟨by simp, by simp⟩⟩, ?_, by rintro _ _ _ ⟨⟩⟩
        · have hrestore := Checkpoints.Step.restore s.life ⟨job, loop⟩
            (by simp [System.life, hprocess, Process.stage]) hdisk
          simpa [System.life, Process.stage, hdisk] using hrestore
        · exact fun saved hsaved => h.disk saved (hdisk.trans hsaved)
  case resume =>
    intro job loop _ hprocess
    refine ⟨⟨.resume, .resume _ ?_, fun _ => ⟨by simp, by simp⟩⟩, h.go fun _ => rfl⟩
    simp [System.life, hprocess, Process.stage]
  case run => exact fun job loop point hprocess => goes_runStep h hprocess
  case stay => exact ⟨moves_stay e s, h⟩

variable (normalizeUrl) in
/-- A research run is a checkpointed run. -/
def checkpointed : Checkpoints.Checkpointed (step normalizeUrl) System.life Careful where
  sound := Open
  moves _ _ h := (goes_step h).1
  keeps _ _ h := (goes_step h).2

theorem open_started (job : ResearchJob) (hjob : job.status.terminal = false) :
    Open (started job) where
  disk := by rintro _ ⟨⟩
  working := by
    rintro _ _ _ ⟨⟩
    exact fun _ => hjob

end CrawlTrove.Research
