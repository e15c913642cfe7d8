import CrawlTrove.Research.Run

/-!
# A page is read once

A URL is claimed on the disk before it is read, so no crash lets a run read it
twice, unless the disk has not taken the claim. The loop itself never looks whether the
next pending URL has been seen: it relies on a round that selects different pages, which
neither the seeds nor the answers of the model have to be.
-/

namespace CrawlTrove.Research

open Relational FirstSeen

variable (normalizeUrl : String → String)

/-! ## The condition -/

/-- The URLs a round adds to the pending ones. -/
def picksOf (job : ResearchJob) (loop : LoopState) (found : List String) :
    Except String (List String) → List String
  | .ok urls => if Selects normalizeUrl job loop found then
      newPicks normalizeUrl job loop found urls else []
  | .error _ => []

/-- A round that searches finds different pages among the pending URLs it keeps, and
the model names none of its picks twice and none in another spelling than there. -/
def Distinct (e : Event) (s : System) : Prop :=
  match s.process, e with
  | .running job loop (.round _), .select _ (.ok found) urls =>
      loop.phase = .search →
        ((keptPending normalizeUrl job loop).map normalizeUrl).Nodup ∧
          (picksOf normalizeUrl job loop found urls).Nodup ∧
          ∀ u ∈ picksOf normalizeUrl job loop found urls,
            normalizeUrl u ∉ (keptPending normalizeUrl job loop).map normalizeUrl
  | _, _ => True

/-- The checkpoint on the disk knows every page that has been passed to the scraper. -/
def OnDisk (s : System) : Prop :=
  ∀ saved, s.checkpoint = some saved → ∀ u ∈ s.scraped, normalizeUrl u ∈ saved.loop.seen

/-- A round selects different pages, and the process dies only with its claims on the disk. -/
def Apart (e : Event) (s : System) : Prop :=
  Distinct normalizeUrl e s ∧ (e = .crash → OnDisk normalizeUrl s)

/-! ## The invariant -/

/-- While the loop reads, what is pending are different pages that it has not seen. -/
structure Tidy (loop : LoopState) : Prop where
  planned : loop.queries = none → loop.phase = .search
  distinct : loop.phase = .read → (loop.pending.map normalizeUrl).Nodup
  unseen : loop.phase = .read → ∀ u ∈ loop.pending, normalizeUrl u ∉ loop.seen

/-- The loop remembers what has been read. -/
structure Consistent (scraped : List String) (loop : LoopState) : Prop
    extends Tidy normalizeUrl loop where
  seen : ∀ u ∈ scraped, normalizeUrl u ∈ loop.seen

/-- A claimed URL has not been read. -/
def PointOk (s : System) (loop : LoopState) : Point → Prop
  | .round _ => loop.queries ≠ none
  | .reading | .scraping _ => loop.phase = .read
  | .claimed url =>
      loop.phase = .read ∧ normalizeUrl url ∈ loop.seen ∧
        normalizeUrl url ∉ s.scraped.map normalizeUrl
  | _ => True

/-- What the process has of the run. -/
def MemoryOk (s : System) : Process → Prop
  | .absent => True
  | .interrupted _ loop => Consistent normalizeUrl s.scraped loop
  | .running _ loop point =>
      Consistent normalizeUrl s.scraped loop ∧ PointOk normalizeUrl s loop point

structure Reads (s : System) : Prop where
  once : (s.scraped.map normalizeUrl).Nodup
  disk : ∀ saved, s.checkpoint = some saved → Tidy normalizeUrl saved.loop
  known : s.process = .absent → OnDisk normalizeUrl s
  memory : MemoryOk normalizeUrl s s.process

variable {normalizeUrl} {s : System} {job : ResearchJob} {loop : LoopState}

theorem Reads.go (h : Reads normalizeUrl s) {point : Point}
    (hloop : Consistent normalizeUrl s.scraped loop) (hpoint : PointOk normalizeUrl s loop point) :
    Reads normalizeUrl (s.go job loop point) where
  once := h.once
  disk := h.disk
  known := by rintro ⟨⟩
  memory := ⟨hloop, by cases point <;> exact hpoint⟩

theorem Reads.store (h : Reads normalizeUrl s) {point : Point}
    (hloop : Consistent normalizeUrl s.scraped loop) (hpoint : PointOk normalizeUrl s loop point) :
    Reads normalizeUrl (s.store job loop point) := by
  have hgo : Reads normalizeUrl (s.go job loop point) := h.go hloop hpoint
  unfold System.store
  split_ifs
  · refine ⟨h.once, ?_, by rintro ⟨⟩, hgo.memory⟩
    rintro saved ⟨rfl⟩
    exact hloop.toTidy
  · exact hgo

theorem Reads.leave (h : Reads normalizeUrl s) (hloop : Consistent normalizeUrl s.scraped loop)
    (exit : Exit) : Reads normalizeUrl (s.leave job loop exit) := by
  cases exit with
  | stopRun => exact h.go hloop trivial
  | raised message => exact h.go hloop trivial

theorem pointOk_roundPoint (s : System) (job : ResearchJob) {loop : LoopState} (roundNo : ℕ)
    (hqueries : loop.queries ≠ none) :
    PointOk normalizeUrl s loop (roundPoint job roundNo) := by
  by_cases h : roundNo ≤ job.maxRounds
  · rw [roundPoint, if_pos h]
    exact hqueries
  · rw [roundPoint, if_neg h]
    trivial

/-- Outside of phase `read` nothing is asked of what is pending. -/
theorem Consistent.of_search {scraped : List String} {loop' : LoopState}
    (h : Consistent normalizeUrl scraped loop) (hseen : loop'.seen = loop.seen)
    (hphase : loop'.phase = .search) : Consistent normalizeUrl scraped loop' where
  planned := fun _ => hphase
  seen := by rw [hseen]; exact h.seen
  distinct := by simp [hphase]
  unseen := by simp [hphase]

/-! ## The steps -/

theorem reads_planStep (h : Reads normalizeUrl s) (hloop : Consistent normalizeUrl s.scraped loop)
    (queries : Except String (List String)) :
    Reads normalizeUrl (planStep normalizeUrl s job loop queries) := by
  unfold planStep
  cases hqueries : loop.queries with
  | some _ => exact h.go hloop (pointOk_roundPoint _ _ _ (by simp [hqueries]))
  | none =>
      have hphase : loop.phase = .search := hloop.planned hqueries
      rcases llm { job with status := .planning } queries with ⟨job', exit | queries'⟩
      · exact h.leave hloop exit
      · exact h.store (hloop.of_search rfl hphase) (pointOk_roundPoint _ _ _ (by simp))

/-- The picks are fresh results. -/
theorem mem_newPicks {found urls : List String} {u : String}
    (h : u ∈ newPicks normalizeUrl job loop found urls) :
    u ∈ freshResults normalizeUrl loop.seen found := by
  have hselect := List.mem_of_mem_take (List.mem_of_mem_filter h)
  simpa using List.of_mem_filter hselect

theorem freshResults_unseen {seen : Finset String} {found : List String} {u : String}
    (h : u ∈ freshResults normalizeUrl seen found) : normalizeUrl u ∉ seen := by
  have hmem := List.of_mem_filter (mem_of_mem_firstsBy h)
  simp only [decide_eq_true_eq] at hmem
  exact hmem.2

theorem mem_picksOf {found : List String} {urls : Except String (List String)} {u : String}
    (h : u ∈ picksOf normalizeUrl job loop found urls) :
    u ∈ freshResults normalizeUrl loop.seen found := by
  cases urls with
  | error message => exact absurd h List.not_mem_nil
  | ok urls =>
      by_cases hselects : Selects normalizeUrl job loop found
      · rw [picksOf, if_pos hselects] at h
        exact mem_newPicks h
      · rw [picksOf, if_neg hselects] at h
        exact absurd h List.not_mem_nil

/-- What a round selects under the condition. -/
theorem consistent_selected {found : List String} (urls : Except String (List String))
    {loop' : LoopState} (hloop : Consistent normalizeUrl s.scraped loop)
    (hkept : ((keptPending normalizeUrl job loop).map normalizeUrl).Nodup)
    (hpicks : (picksOf normalizeUrl job loop found urls).Nodup)
    (hother : ∀ u ∈ picksOf normalizeUrl job loop found urls,
      normalizeUrl u ∉ (keptPending normalizeUrl job loop).map normalizeUrl)
    (hqueries : loop'.queries ≠ none) (hseen : loop'.seen = loop.seen)
    (hpending : loop'.pending = keptPending normalizeUrl job loop ++
      picksOf normalizeUrl job loop found urls) :
    Consistent normalizeUrl s.scraped loop' where
  planned := fun hnone => absurd hnone hqueries
  seen := by rw [hseen]; exact hloop.seen
  distinct := by
    intro _
    rw [hpending, List.map_append, List.nodup_append']
    refine ⟨hkept, hpicks.map_on ?_, ?_⟩
    · -- of the fresh results no two have the same normal form
      intro u hu v hv heq
      exact List.inj_on_of_nodup_map (nodup_keys_firstsBy _ _) (mem_picksOf hu) (mem_picksOf hv) heq
    · intro k hk hk'
      obtain ⟨u, hu, rfl⟩ := List.mem_map.mp hk'
      exact hother u hu hk
  unseen := by
    intro _ u hu
    rw [hpending] at hu
    rw [hseen]
    rcases List.mem_append.mp hu with hu | hu
    · have hfilter := List.of_mem_filter (List.mem_of_mem_take hu)
      simpa using hfilter
    · exact freshResults_unseen (mem_picksOf hu)

theorem reads_selectStep (h : Reads normalizeUrl s)
    (hloop : Consistent normalizeUrl s.scraped loop) {roundNo : ℕ} (hqueries : loop.queries ≠ none)
    (timeUp : Bool) (found urls : Except String (List String))
    (hdistinct : ∀ results, found = .ok results → loop.phase = .search →
      ((keptPending normalizeUrl job loop).map normalizeUrl).Nodup ∧
        (picksOf normalizeUrl job loop results urls).Nodup ∧
        ∀ u ∈ picksOf normalizeUrl job loop results urls,
          normalizeUrl u ∉ (keptPending normalizeUrl job loop).map normalizeUrl) :
    Reads normalizeUrl (selectStep normalizeUrl s job loop roundNo timeUp found urls) := by
  have hround : Consistent normalizeUrl s.scraped { loop with roundNo := roundNo } :=
    ⟨⟨hloop.planned, hloop.distinct, hloop.unseen⟩, hloop.seen⟩
  unfold selectStep
  by_cases hstop : stops job timeUp = true ∨ job.maxPages ≤ job.pagesScraped
  · rw [if_pos hstop]
    exact h.leave hloop _
  rw [if_neg hstop]
  by_cases hphase : loop.phase = .read
  · simp only [if_pos hphase]
    exact h.go hround hphase
  have hsearch : loop.phase = .search := by
    cases hp : loop.phase with
    | search => rfl
    | read => exact absurd hp hphase
  simp only [if_neg hphase]
  cases found with
  | error message => exact h.leave hround _
  | ok results =>
      obtain ⟨hkept, hpicks, hother⟩ := hdistinct results rfl hsearch
      by_cases hselects : Selects normalizeUrl job loop results
      · have hselects' : Selects normalizeUrl
            { job with roundsRun := max job.roundsRun roundNo, status := .searching }
            { loop with roundNo := roundNo } results := hselects
        simp only [if_pos hselects']
        cases urls with
        | error message =>
            simp only [llm]
            split_ifs
            · exact h.leave hround _
            · exact h.leave hround _
        | ok urls =>
            simp only [llm]
            split_ifs
            · exact h.leave hround _
            · have hpicksOf : picksOf normalizeUrl job loop results (.ok urls) =
                  newPicks normalizeUrl job loop results urls := if_pos hselects
              exact h.store (consistent_selected _ hloop hkept hpicks hother hqueries rfl
                (congrArg (keptPending normalizeUrl job loop ++ ·) hpicksOf.symm)) rfl
      · have hselects' : ¬ Selects normalizeUrl
            { job with roundsRun := max job.roundsRun roundNo, status := .searching }
            { loop with roundNo := roundNo } results := hselects
        simp only [if_neg hselects']
        have hnone : picksOf normalizeUrl job loop results (.error "") = [] := rfl
        exact h.store (consistent_selected (.error "") hloop hkept List.nodup_nil
          (by simp [picksOf]) hqueries rfl (by rw [hnone, List.append_nil]; rfl)) rfl

theorem reads_claimStep (h : Reads normalizeUrl s) (hloop : Consistent normalizeUrl s.scraped loop)
    (hphase : loop.phase = .read) (timeUp : Bool) :
    Reads normalizeUrl (claimStep normalizeUrl s job loop timeUp) := by
  have hmemory : Reads normalizeUrl (s.go job loop .reading) := h.go hloop hphase
  unfold claimStep
  cases hpending : loop.pending with
  | nil => exact h
  | cons url pending =>
      simp only
      by_cases hstop : stops { job with status := .reading } timeUp = true ∨
          job.maxPages ≤ job.pagesScraped
      · rw [if_pos hstop]
        exact h.leave hloop _
      · rw [if_neg hstop]
        have hdistinct := hloop.distinct hphase
        have hunseen := hloop.unseen hphase
        rw [hpending, List.map_cons, List.nodup_cons] at hdistinct
        rw [hpending] at hunseen
        -- the URL is seen from now on, whether or not the disk takes the checkpoint
        refine h.store ⟨⟨fun hnone => hloop.planned hnone, fun _ => hdistinct.2, ?_⟩, ?_⟩
          ⟨hphase, Finset.mem_insert_self _ _, ?_⟩
        · intro _ u hu hmem
          rcases Finset.mem_insert.mp hmem with heq | hmem
          · exact hdistinct.1 (heq ▸ List.mem_map_of_mem hu)
          · exact hunseen u (List.mem_cons_of_mem _ hu) hmem
        · intro u hu
          exact Finset.mem_insert_of_mem (hloop.seen u hu)
        · intro hmem
          obtain ⟨u, hu, heq⟩ := List.mem_map.mp hmem
          exact hunseen url List.mem_cons_self (heq ▸ hloop.seen u hu)

theorem reads_pageStep (h : Reads normalizeUrl s) (hloop : Consistent normalizeUrl s.scraped loop)
    (hphase : loop.phase = .read) (url : String) (outcome : PageOutcome) :
    Reads normalizeUrl (pageStep s job loop url outcome) := by
  unfold pageStep
  rcases readPage job url outcome with ⟨job', exit | ⟨⟩⟩
  · exact h.leave hloop exit
  · exact h.store hloop hphase

theorem reads_assessStep (h : Reads normalizeUrl s)
    (hloop : Consistent normalizeUrl s.scraped loop) (timeUp : Bool)
    (verdict : Except String Verdict) :
    Reads normalizeUrl (assessStep s job loop timeUp verdict) := by
  unfold assessStep
  split_ifs with hpending hstop
  · exact h
  · exact h.leave hloop _
  · rcases llm { job with status := .planning } verdict with ⟨job', exit | verdict'⟩
    · exact h.leave hloop exit
    · simp only
      split_ifs with henough
      · exact h.go hloop trivial
      · exact h.store (hloop.of_search rfl rfl) (pointOk_roundPoint _ _ _ (by simp))

/-- A claimed URL goes to the scraper. -/
theorem reads_scrape {url : String} (h : Reads normalizeUrl s)
    (hloop : Consistent normalizeUrl s.scraped loop)
    (hpoint : PointOk normalizeUrl s loop (.claimed url)) :
    Reads normalizeUrl { s.go job loop (.scraping url) with scraped := s.scraped ++ [url] } := by
  obtain ⟨hphase, hseen, hnew⟩ := hpoint
  have hread : Consistent normalizeUrl (s.scraped ++ [url]) loop := by
    refine ⟨hloop.toTidy, ?_⟩
    intro u hu
    rcases List.mem_append.mp hu with hu | hu
    · exact hloop.seen u hu
    · rw [List.mem_singleton.mp hu]
      exact hseen
  refine ⟨?_, h.disk, by rintro ⟨⟩, hread, hphase⟩
  show ((s.scraped ++ [url]).map normalizeUrl).Nodup
  rw [List.map_append, List.nodup_append']
  refine ⟨h.once, List.nodup_singleton _, ?_⟩
  intro k hk hk'
  rw [List.map_singleton, List.mem_singleton] at hk'
  exact hnew (hk' ▸ hk)

theorem reads_runStep {point : Point} {e : Event} (h : Reads normalizeUrl s)
    (hprocess : s.process = .running job loop point) (hdistinct : Distinct normalizeUrl e s) :
    Reads normalizeUrl (runStep normalizeUrl s job loop point e) := by
  have hmemory := h.memory
  rw [hprocess] at hmemory
  obtain ⟨hloop, hpoint⟩ := hmemory
  apply runStep_cases
  case start =>
    intro timeUp _ _
    exact h.store hloop (by cases timeUp <;> trivial)
  case plan =>
    intro queries _ _
    exact reads_planStep h hloop queries
  case select =>
    rintro roundNo timeUp found urls rfl rfl
    refine reads_selectStep h hloop hpoint timeUp found urls ?_
    rintro results rfl hsearch
    simp only [Distinct, hprocess] at hdistinct
    exact hdistinct hsearch
  case claim =>
    rintro timeUp rfl _
    exact reads_claimStep h hloop hpoint timeUp
  case scrape =>
    rintro url rfl _
    exact reads_scrape h hloop hpoint
  case page =>
    rintro url outcome rfl _
    exact reads_pageStep h hloop hpoint url outcome
  case assess =>
    intro timeUp verdict _ _
    exact reads_assessStep h hloop timeUp verdict
  case save => exact fun _ _ => ⟨h.once, h.disk, by rintro ⟨⟩, hloop, trivial⟩
  case delete =>
    exact fun _ _ => ⟨h.once, fun saved hsaved => by simp at hsaved, by rintro ⟨⟩, hloop, trivial⟩
  case stay => exact h
  -- what is left only moves the run on
  all_goals
    intros
    exact h.go hloop trivial

theorem reads_step {e : Event} (hapart : Apart normalizeUrl e s)
    (h : Reads normalizeUrl s) : Reads normalizeUrl (step normalizeUrl e s) := by
  obtain ⟨hdistinct, hondisk⟩ := hapart
  apply step_cases
  case crash => exact fun he => ⟨h.once, h.disk, fun _ => hondisk he, trivial⟩
  case disk => exact fun _ _ => ⟨h.once, h.disk, h.known, h.memory⟩
  case cancel =>
    intro _
    have hmemory := h.memory
    unfold cancelStep
    cases hprocess : s.process with
    | absent => exact h
    | interrupted job loop =>
        rw [hprocess] at hmemory
        exact ⟨h.once, h.disk, by rintro ⟨⟩, hmemory⟩
    | running job loop point =>
        rw [hprocess] at hmemory
        simp only
        split_ifs
        · exact h
        · exact h.go hmemory.1 hmemory.2
  case restore =>
    intro _ hprocess
    unfold restoreStep
    cases hdisk : s.checkpoint with
    | none => exact h
    | some saved =>
        obtain ⟨job, loop⟩ := saved
        simp only
        split_ifs
        · refine ⟨h.once, fun saved hsaved => by simp at hsaved, fun _ => ?_, ?_⟩
          · rintro saved ⟨⟩
          · show MemoryOk normalizeUrl _ s.process
            rw [hprocess]
            trivial
        · exact ⟨h.once, fun saved hsaved => h.disk saved (hdisk.trans hsaved), by rintro ⟨⟩,
            h.disk _ hdisk, h.known hprocess _ hdisk⟩
  case resume =>
    intro job loop _ hprocess
    have hmemory := h.memory
    rw [hprocess] at hmemory
    exact h.go hmemory trivial
  case run => exact fun job loop point hprocess => reads_runStep h hprocess hdistinct
  case stay => exact h

/-! ## The pages counted -/

def Process.jobs : Process → List ResearchJob
  | .absent => []
  | .interrupted job _ => [job]
  | .running job _ _ => [job]

/-- The job as the process and as the checkpoint have it. -/
def System.jobs (s : System) : List ResearchJob :=
  s.process.jobs ++ (s.checkpoint.map Saved.job).toList

/-- A page is about to be read, or being read. -/
def Point.atPage : Point → Bool
  | .claimed _ | .scraping _ => true
  | _ => false

/-- The count is within the bound, and below it while a page is read. -/
def WithinPages (maxPages : ℕ) (job : ResearchJob) : Prop :=
  job.maxPages = maxPages ∧ job.pagesScraped ≤ maxPages

structure Bounded (maxPages : ℕ) (s : System) : Prop where
  jobs : ∀ job ∈ s.jobs, WithinPages maxPages job
  room : ∀ job loop point, s.process = .running job loop point →
    point.atPage = true → job.pagesScraped < maxPages

variable {maxPages : ℕ}

theorem Bounded.process (h : Bounded maxPages s) {point : Point}
    (hprocess : s.process = .running job loop point) : WithinPages maxPages job :=
  h.jobs job (by simp [System.jobs, hprocess, Process.jobs])

theorem Bounded.disk (h : Bounded maxPages s) {saved : Saved}
    (hdisk : s.checkpoint = some saved) : WithinPages maxPages saved.job :=
  h.jobs saved.job (by simp [System.jobs, hdisk])

/-- A step that writes no checkpoint. -/
theorem Bounded.go (h : Bounded maxPages s) {point : Point} (hjob : WithinPages maxPages job)
    (hroom : point.atPage = true → job.pagesScraped < maxPages) :
    Bounded maxPages (s.go job loop point) where
  jobs := by
    intro other hother
    rcases List.mem_append.mp hother with hmem | hmem
    · rw [List.mem_singleton.mp hmem]
      exact hjob
    · exact h.jobs other (List.mem_append_right _ hmem)
  room := by
    rintro _ _ _ ⟨⟩
    exact hroom

theorem Bounded.store (h : Bounded maxPages s) {point : Point} (hjob : WithinPages maxPages job)
    (hroom : point.atPage = true → job.pagesScraped < maxPages) :
    Bounded maxPages (s.store job loop point) := by
  have hgo : Bounded maxPages (s.go job loop point) := h.go hjob hroom
  unfold System.store
  split_ifs
  · refine ⟨?_, hgo.room⟩
    intro other hother
    rcases List.mem_append.mp hother with hmem | hmem
    · rw [List.mem_singleton.mp hmem]
      exact hjob
    · rw [List.mem_singleton.mp hmem]
      exact hjob
  · exact hgo

theorem Bounded.leave (h : Bounded maxPages s) (hjob : WithinPages maxPages job) (exit : Exit) :
    Bounded maxPages (s.leave job loop exit) := by
  cases exit with
  | stopRun => exact h.go hjob (by simp [Point.atPage])
  | raised message => exact h.go hjob (by simp [Point.atPage])

theorem llm_within {α : Type} (hjob : WithinPages maxPages job) (answer : Except String α) :
    WithinPages maxPages (llm job answer).1 := by
  unfold llm
  split_ifs
  · exact hjob
  · exact hjob

@[simp] theorem atPage_roundPoint (job : ResearchJob) (roundNo : ℕ) :
    (roundPoint job roundNo).atPage = false := by
  unfold roundPoint
  split_ifs <;> rfl

theorem conclude_within (hjob : WithinPages maxPages job) (answer : Except String Bool) :
    WithinPages maxPages (conclude job answer) := by
  rw [WithinPages, conclude_maxPages, conclude_pagesScraped]
  exact hjob

theorem readPage_within (hjob : WithinPages maxPages job) (hroom : job.pagesScraped < maxPages)
    (url : String) (outcome : PageOutcome) :
    WithinPages maxPages (readPage job url outcome).1 := by
  cases outcome with
  | crashed => exact hjob
  | failed => exact ⟨hjob.1, hroom⟩
  | read notes =>
      have hcounted : WithinPages maxPages { job with pagesScraped := job.pagesScraped + 1 } :=
        ⟨hjob.1, hroom⟩
      have hllm := llm_within hcounted notes
      unfold readPage
      rcases hcall : llm { job with pagesScraped := job.pagesScraped + 1 } notes with
        ⟨job', exit | relevant⟩
      · simp only [hcall] at hllm ⊢
        exact hllm
      · simp only [hcall] at hllm ⊢
        exact hllm

theorem bounded_selectStep (h : Bounded maxPages s) (hjob : WithinPages maxPages job)
    (roundNo : ℕ) (timeUp : Bool) (found urls : Except String (List String)) :
    Bounded maxPages (selectStep normalizeUrl s job loop roundNo timeUp found urls) := by
  have hsearching : WithinPages maxPages
      { job with roundsRun := max job.roundsRun roundNo, status := .searching } := hjob
  unfold selectStep
  by_cases hstop : stops job timeUp = true ∨ job.maxPages ≤ job.pagesScraped
  · rw [if_pos hstop]
    exact h.leave hjob _
  rw [if_neg hstop]
  by_cases hphase : loop.phase = .read
  · simp only [if_pos hphase]
    exact h.go hjob (by simp [Point.atPage])
  simp only [if_neg hphase]
  cases found with
  | error message => exact h.leave hsearching _
  | ok results =>
      simp only
      by_cases hselects : Selects normalizeUrl
          { job with roundsRun := max job.roundsRun roundNo, status := .searching }
          { loop with roundNo := roundNo } results
      · have hllm := llm_within hsearching urls
        rcases hcall : llm { job with
          roundsRun := max job.roundsRun roundNo, status := .searching } urls with
          ⟨job', exit | urls'⟩
        · rw [hcall] at hllm
          simp only [if_pos hselects]
          exact h.leave hllm exit
        · rw [hcall] at hllm
          simp only [if_pos hselects]
          exact h.store hllm (by simp [Point.atPage])
      · simp only [if_neg hselects]
        exact h.store hsearching (by simp [Point.atPage])

theorem bounded_runStep {point : Point} {e : Event} (h : Bounded maxPages s)
    (hprocess : s.process = .running job loop point) :
    Bounded maxPages (runStep normalizeUrl s job loop point e) := by
  have hjob : WithinPages maxPages job := h.process hprocess
  have hreading : WithinPages maxPages { job with status := .reading } := hjob
  have hplanning : WithinPages maxPages { job with status := .planning } := hjob
  have hroom := h.room job loop point hprocess
  apply runStep_cases
  case start =>
    intro timeUp _ _
    exact h.store hjob (by cases timeUp <;> simp [Point.atPage])
  case plan =>
    intro queries _ _
    unfold planStep
    split_ifs
    · exact h.go hjob (by simp)
    · have hllm := llm_within hplanning queries
      rcases hcall : llm { job with status := .planning } queries with ⟨job', exit | queries'⟩
      · rw [hcall] at hllm
        exact h.leave hllm exit
      · rw [hcall] at hllm
        exact h.store hllm (by simp)
  case select =>
    intro roundNo timeUp found urls _ _
    exact bounded_selectStep h hjob roundNo timeUp found urls
  case claim =>
    intro timeUp _ _
    unfold claimStep
    cases loop.pending with
    | nil => exact h
    | cons url pending =>
        simp only
        split_ifs with hstop
        · exact h.leave hreading _
        · refine h.store hjob fun _ => ?_
          rw [not_or, not_le, hjob.1] at hstop
          exact hstop.2
  case scrape =>
    rintro url rfl _
    have hgo : Bounded maxPages (s.go job loop (.scraping url)) := h.go hjob fun _ => hroom rfl
    exact ⟨hgo.jobs, hgo.room⟩
  case page =>
    rintro url outcome rfl _
    have hpage := readPage_within hjob (hroom rfl) url outcome
    unfold pageStep
    rcases hcall : readPage job url outcome with ⟨job', exit | ⟨⟩⟩
    · rw [hcall] at hpage
      exact h.leave hpage exit
    · rw [hcall] at hpage
      exact h.store hpage (by simp [Point.atPage])
  case assess =>
    intro timeUp verdict _ _
    unfold assessStep
    split_ifs
    · exact h
    · exact h.leave hreading _
    · have hllm := llm_within hplanning verdict
      rcases hcall : llm { job with status := .planning } verdict with ⟨job', exit | verdict'⟩
      · rw [hcall] at hllm
        exact h.leave hllm exit
      · rw [hcall] at hllm
        simp only
        split_ifs
        · exact h.go hllm (by simp [Point.atPage])
        · exact h.store hllm (by simp)
  case synthesize =>
    intro answer _ _
    exact h.go (conclude_within hjob answer) (by simp [Point.atPage])
  case save =>
    intro _ _
    have hgo : Bounded maxPages (s.go job loop .saved) := h.go hjob (by simp [Point.atPage])
    exact ⟨hgo.jobs, hgo.room⟩
  case delete =>
    intro _ _
    refine ⟨?_, by rintro _ _ _ ⟨⟩; simp [Point.atPage]⟩
    intro other hother
    rw [List.mem_singleton.mp hother]
    exact hjob
  case stay => exact h
  all_goals
    intros
    exact h.go hjob (by simp [Point.atPage])

theorem bounded_step {e : Event} (h : Bounded maxPages s) :
    Bounded maxPages (step normalizeUrl e s) := by
  apply step_cases
  case disk => exact fun _ _ => ⟨h.jobs, h.room⟩
  case crash =>
    intro _
    exact ⟨fun other hother => h.jobs other (List.mem_append_right _ hother),
      by rintro _ _ _ ⟨⟩⟩
  case cancel =>
    intro _
    unfold cancelStep
    cases hprocess : s.process with
    | absent => exact h
    | interrupted job loop =>
        have hjob : WithinPages maxPages { job with cancelRequested := true } :=
          h.jobs job (by simp [System.jobs, hprocess, Process.jobs])
        refine ⟨?_, by rintro _ _ _ ⟨⟩⟩
        intro other hother
        rcases List.mem_append.mp hother with hmem | hmem
        · rw [List.mem_singleton.mp hmem]
          exact hjob
        · exact h.jobs other (List.mem_append_right _ hmem)
    | running job loop point =>
        have hold : WithinPages maxPages job := h.process hprocess
        have hjob : WithinPages maxPages { job with cancelRequested := true } := hold
        simp only
        split_ifs
        · exact h
        · exact h.go hjob (h.room job loop point hprocess)
  case restore =>
    intro _ hprocess
    unfold restoreStep
    cases hdisk : s.checkpoint with
    | none => exact h
    | some saved =>
        obtain ⟨job, loop⟩ := saved
        have hjob : WithinPages maxPages job := h.disk hdisk
        simp only
        split_ifs
        · refine ⟨?_, ?_⟩
          · intro other hother
            simp [System.jobs, hprocess, Process.jobs] at hother
          · intro _ _ _ hrunning
            exact absurd (hrunning.symm.trans hprocess) (by simp)
        · refine ⟨?_, by rintro _ _ _ ⟨⟩⟩
          intro other hother
          rcases List.mem_append.mp hother with hmem | hmem
          · rw [List.mem_singleton.mp hmem]
            exact hjob
          · apply h.jobs other (List.mem_append_right _ _)
            rw [hdisk]
            exact hmem
  case resume =>
    intro job loop _ hprocess
    have hjob : WithinPages maxPages { job with status := .queued } :=
      h.jobs job (by simp [System.jobs, hprocess, Process.jobs])
    exact h.go hjob (by simp [Point.atPage])
  case run => exact fun job loop point hprocess => bounded_runStep h hprocess
  case stay => exact h

/-! ## Runs -/

theorem reads_started (seedUrls : List String) (maxRounds maxPages : ℕ) :
    Reads normalizeUrl (started (createJob seedUrls maxRounds maxPages)) where
  once := List.nodup_nil
  disk := by rintro _ ⟨⟩
  known := by rintro ⟨⟩
  memory := ⟨⟨⟨fun _ => rfl, by simp, by simp⟩, by simp [started]⟩, trivial⟩

theorem bounded_started (seedUrls : List String) (maxRounds maxPages : ℕ) :
    Bounded maxPages (started (createJob seedUrls maxRounds maxPages)) where
  jobs := by
    intro job hjob
    rw [List.mem_singleton.mp hjob]
    exact ⟨rfl, Nat.zero_le _⟩
  room := by
    rintro _ _ _ ⟨⟩
    simp [Point.atPage]

theorem read_once (normalizeUrl : String → String) (seedUrls : List String)
    (maxRounds maxPages : ℕ) (events : List Event)
    (h : StepsMeet (step normalizeUrl) (Apart normalizeUrl)
      (started (createJob seedUrls maxRounds maxPages)) events) :
    ((run normalizeUrl (createJob seedUrls maxRounds maxPages) events).scraped.map
        normalizeUrl).Nodup ∧
      ∀ job ∈ (run normalizeUrl (createJob seedUrls maxRounds maxPages) events).jobs,
        job.pagesScraped ≤ maxPages := by
  constructor
  · exact (runFrom_invariant (fun _ _ => reads_step) h (reads_started ..)).once
  · intro job hjob
    have hbounded := runFrom_invariant (fun _ _ _ => bounded_step) h (bounded_started ..)
    exact (hbounded.jobs job hjob).2

namespace Sample

/-- What `normalize_url` makes of a plain URL: no slash at its end. -/
def withoutSlash (url : String) : String :=
  String.ofList ((url.toList.reverse.dropWhile (· = '/')).reverse)

/-- A round that reads one seed and one search result. The disk does not take the checkpoint
behind the first, and the process dies while the second is read. -/
def crashedRound : List Event :=
  [.start false, .plan (.ok ["actors"]),
    .select false (.ok ["https://b.org/actors", "https://b.org/actors/"])
      (.ok ["https://b.org/actors"]),
    .claim false, .scrape, .disk false, .page (.read (.ok true)), .disk true,
    .claim false, .scrape, .crash, .restore, .resume, .start false, .plan (.ok []),
    .select false (.ok []) (.ok []), .assess false (.ok ⟨true, []⟩), .synthesize (.ok false),
    .save true, .delete true]

instance (s : System) : Decidable (OnDisk withoutSlash s) :=
  inferInstanceAs (Decidable (∀ saved ∈ s.checkpoint, ∀ u ∈ s.scraped, _))

theorem apart_crashedRound :
    StepsMeet (step withoutSlash) (Apart withoutSlash)
      (started (createJob ["https://a.org"] 4 25)) crashedRound := by
  refine ⟨⟨trivial, nofun⟩, ⟨trivial, nofun⟩, ⟨?_, nofun⟩, ⟨trivial, nofun⟩, ⟨trivial, nofun⟩,
    ⟨trivial, nofun⟩, ⟨trivial, nofun⟩, ⟨trivial, nofun⟩, ⟨trivial, nofun⟩, ⟨trivial, nofun⟩,
    ⟨trivial, fun _ => ?_⟩, ⟨trivial, nofun⟩, ⟨trivial, nofun⟩, ⟨trivial, nofun⟩,
    ⟨trivial, nofun⟩, ⟨?_, nofun⟩, ⟨trivial, nofun⟩, ⟨trivial, nofun⟩, ⟨trivial, nofun⟩,
    ⟨trivial, nofun⟩, trivial⟩
  · exact fun _ => by decide
  · decide
  · exact fun h => absurd h (by decide)

theorem read_once_crashedRound :
    ((run withoutSlash (createJob ["https://a.org"] 4 25) crashedRound).scraped.map
        withoutSlash).Nodup ∧
      ∀ job ∈ (run withoutSlash (createJob ["https://a.org"] 4 25) crashedRound).jobs,
        job.pagesScraped ≤ 25 :=
  read_once withoutSlash ["https://a.org"] 4 25 crashedRound apart_crashedRound

/-- Two spellings of a page among the seeds: it is read twice, without any crash. -/
theorem seed_read_twice :
    ¬ ((run withoutSlash (createJob ["https://a.org/x", "https://a.org/x/"] 4 25)
        [.start false, .plan (.ok ["actors"]), .select false (.ok []) (.ok []),
          .claim false, .scrape, .page (.read (.ok true)),
          .claim false, .scrape]).scraped.map withoutSlash).Nodup := by
  decide

/-- The disk does not take the claim of the only page, and the process dies while it is
read: the older checkpoint has it pending. -/
theorem claim_lost :
    ¬ ((run withoutSlash (createJob ["https://a.org"] 4 25)
        [.start false, .plan (.ok ["actors"]), .select false (.ok []) (.ok []), .disk false,
          .claim false, .scrape, .crash, .restore, .resume, .start false, .plan (.ok []),
          .select false (.ok []) (.ok []), .claim false, .scrape]).scraped.map
        withoutSlash).Nodup := by
  decide

end Sample

end CrawlTrove.Research
