import CrawlTrove.Crawler.Run

/-!
# Limits of a crawl

Three workers share one frontier, and a crash may take the process at any time. What has
been claimed is visited, and what is visited is counted against the limit, so neither the
order of the workers nor a restart lets a page be stored twice or the limit be passed.
-/

namespace CrawlTrove.Crawler

open Relational

variable (normalizeUrl : String → String)

/-! ## The invariant -/

/-- The identities of the pages that are recorded, and of those claimed but not recorded. -/
def CrawlJob.recorded (job : CrawlJob) : List String := (job.results ++ job.errors).map normalizeUrl

def claimed (inFlight : List InFlight) : List String :=
  (inFlight.filter (!·.recorded)).map fun page => normalizeUrl page.url

/-- How deep a page can be: a sitemap's pages count as links of the first one, whatever
the depth that was asked for. -/
def depthBound (maxDepth : ℕ) : ℕ := max 1 maxDepth

/-- The pages of a frontier are not too deep. -/
def Shallow (maxDepth : ℕ) (pages : List (String × ℕ)) : Prop :=
  ∀ p ∈ pages, p.2 ≤ depthBound maxDepth

variable (limit maxDepth : ℕ)

/-- A job with its loop state, in memory or on the disk: the pages that it has recorded and
those of `others` are visited and, among the results and among the errors, distinct, and the
limit holds. -/
structure Limited (job : CrawlJob) (loop : LoopState) (others : List String) : Prop where
  terms : job.limit = limit ∧ job.maxDepth = maxDepth
  visited : loop.visited.card ≤ limit
  pending : Shallow maxDepth loop.pending
  seen : ∀ u ∈ job.recorded normalizeUrl ++ others, u ∈ loop.visited
  resultsOnce : (job.results.map normalizeUrl ++ others).Nodup
  errorsOnce : (job.errors.map normalizeUrl ++ others).Nodup

/-- A crawl in the process. -/
def Working (job : CrawlJob) (loop : LoopState) : Point → Prop
  | .crawling queue inFlight =>
      Limited normalizeUrl limit maxDepth job loop (claimed normalizeUrl inFlight) ∧
        Shallow maxDepth queue ∧ Shallow maxDepth (inFlight.map fun page => (page.url, page.depth))
  | _ => Limited normalizeUrl limit maxDepth job loop []

def Process.Holds : Process → Prop
  | .absent => True
  | .interrupted job loop => Limited normalizeUrl limit maxDepth job loop []
  | .running job loop point => Working normalizeUrl limit maxDepth job loop point

/-- Pages as they are stored, in the results or the errors. -/
def Stored (pages : List String) : Prop :=
  (pages.map normalizeUrl).Nodup ∧ pages.length ≤ limit

structure Holds (s : System) : Prop where
  process : s.process.Holds normalizeUrl limit maxDepth
  disk : ∀ saved, s.checkpoint = some saved →
    Limited normalizeUrl limit maxDepth saved.job saved.loop []
  written : ∀ saved ∈ s.written, Limited normalizeUrl limit maxDepth saved.job saved.loop []
  artifacts : ∀ job ∈ s.artifacts,
    Stored normalizeUrl limit job.results ∧ Stored normalizeUrl limit job.errors

variable {normalizeUrl} {limit maxDepth} {s : System} {job job' : CrawlJob}
  {loop loop' : LoopState} {others others' : List String}

theorem Limited.sublist (h : Limited normalizeUrl limit maxDepth job loop others)
    (hless : others'.Sublist others) : Limited normalizeUrl limit maxDepth job loop others' := by
  have happend (pages : List String) : (pages ++ others').Sublist (pages ++ others) :=
    (List.Sublist.refl _).append hless
  exact ⟨h.terms, h.visited, h.pending, fun u hu => h.seen u ((happend _).subset hu),
    h.resultsOnce.sublist (happend _), h.errorsOnce.sublist (happend _)⟩

theorem Limited.alone (h : Limited normalizeUrl limit maxDepth job loop others) :
    Limited normalizeUrl limit maxDepth job loop [] := h.sublist (List.nil_sublist _)

/-- Pages that are visited and distinct are at most as many as are visited. -/
theorem Limited.pages_stored (h : Limited normalizeUrl limit maxDepth job loop others)
    {pages : List String} (hnodup : (pages.map normalizeUrl).Nodup)
    (hrecorded : ∀ u ∈ pages, u ∈ job.results ++ job.errors) :
    Stored normalizeUrl limit pages := by
  refine ⟨hnodup, ?_⟩
  calc pages.length
      = (pages.map normalizeUrl).toFinset.card := by
        rw [List.toFinset_card_of_nodup hnodup, List.length_map]
    _ ≤ loop.visited.card := by
        apply Finset.card_le_card
        intro u hu
        obtain ⟨page, hpage, rfl⟩ := List.mem_map.mp (List.mem_toFinset.mp hu)
        have hpage := List.mem_map_of_mem (f := normalizeUrl) (hrecorded page hpage)
        exact h.seen _ (List.mem_append_left _ hpage)
    _ ≤ limit := h.visited

theorem Limited.stored (h : Limited normalizeUrl limit maxDepth job loop others) :
    Stored normalizeUrl limit job.results ∧ Stored normalizeUrl limit job.errors := by
  constructor
  · have hnodup := h.resultsOnce.sublist (List.sublist_append_left _ _)
    exact h.pages_stored hnodup fun u hu => List.mem_append_left _ hu
  · have hnodup := h.errorsOnce.sublist (List.sublist_append_left _ _)
    exact h.pages_stored hnodup fun u hu => List.mem_append_right _ hu

theorem Limited.job_eq (h : Limited normalizeUrl limit maxDepth job loop others)
    (hterms : job'.limit = job.limit ∧ job'.maxDepth = job.maxDepth)
    (hpages : job'.results = job.results ∧ job'.errors = job.errors) :
    Limited normalizeUrl limit maxDepth job' loop others := by
  obtain ⟨hresults, herrors⟩ := hpages
  refine ⟨⟨hterms.1.trans h.terms.1, hterms.2.trans h.terms.2⟩, h.visited, h.pending, ?_, ?_, ?_⟩
  · unfold CrawlJob.recorded
    rw [hresults, herrors]
    exact h.seen
  · rw [hresults]
    exact h.resultsOnce
  · rw [herrors]
    exact h.errorsOnce

theorem Limited.loop_eq (h : Limited normalizeUrl limit maxDepth job loop others)
    (hvisited : loop'.visited = loop.visited) (hpending : Shallow maxDepth loop'.pending) :
    Limited normalizeUrl limit maxDepth job loop' others := by
  refine ⟨h.terms, ?_, hpending, ?_, h.resultsOnce, h.errorsOnce⟩
  · rw [hvisited]
    exact h.visited
  · rw [hvisited]
    exact h.seen

theorem Working.alone {point : Point} (h : Working normalizeUrl limit maxDepth job loop point) :
    Limited normalizeUrl limit maxDepth job loop [] := by
  cases point with
  | crawling queue inFlight => exact h.1.alone
  | entered resumed => exact h
  | finished => exact h
  | saved => exact h
  | ended => exact h

theorem Holds.go {point : Point} (h : Holds normalizeUrl limit maxDepth s)
    (hworking : Working normalizeUrl limit maxDepth job loop point) :
    Holds normalizeUrl limit maxDepth (s.go job loop point) :=
  ⟨hworking, h.disk, h.written, h.artifacts⟩

theorem Holds.store {point : Point} (h : Holds normalizeUrl limit maxDepth s)
    (hworking : Working normalizeUrl limit maxDepth job loop point) :
    Holds normalizeUrl limit maxDepth (s.store job loop point) := by
  unfold System.store
  split_ifs
  · refine ⟨hworking, ?_, ?_, h.artifacts⟩
    · rintro _ ⟨⟩
      exact hworking.alone
    · intro saved hsaved
      rcases List.mem_append.mp hsaved with hsaved | hsaved
      · exact h.written saved hsaved
      · obtain rfl := List.mem_singleton.mp hsaved
        exact hworking.alone
  · exact h.go hworking

/-! ## The steps -/

theorem Shallow.append {pages pages' : List (String × ℕ)} (h : Shallow maxDepth pages)
    (h' : Shallow maxDepth pages') : Shallow maxDepth (pages ++ pages') := by
  intro p hp
  rcases List.mem_append.mp hp with hp | hp
  · exact h p hp
  · exact h' p hp

theorem holds_startStep {resumed : Bool} (h : Holds normalizeUrl limit maxDepth s)
    (hlimited : Limited normalizeUrl limit maxDepth job loop [])
    (sitemap : Option (List String)) :
    Holds normalizeUrl limit maxDepth (startStep normalizeUrl s job loop resumed sitemap) := by
  have hstart : ∀ (job' : CrawlJob) (loop' : LoopState),
      Limited normalizeUrl limit maxDepth job' loop' [] →
        Holds normalizeUrl limit maxDepth (s.store job' loop' (.crawling loop'.pending [])) :=
    fun job' loop' hlimited' =>
      h.store ⟨hlimited', hlimited'.pending, fun p hp => by cases hp⟩
  unfold startStep
  dsimp only
  split_ifs
  · exact hstart _ _ (hlimited.job_eq ⟨rfl, rfl⟩ ⟨rfl, rfl⟩)
  · cases sitemap with
    | none => exact hstart _ _ (hlimited.job_eq ⟨rfl, rfl⟩ ⟨rfl, rfl⟩)
    | some seeded =>
        refine hstart _ _ (Limited.job_eq (Limited.loop_eq hlimited rfl ?_) ⟨rfl, rfl⟩ ⟨rfl, rfl⟩)
        refine hlimited.pending.append ?_
        -- a sitemap's pages have depth 1, also where only depth 0 was asked for
        intro p hp
        obtain ⟨u, -, rfl⟩ := List.mem_map.mp hp
        exact le_max_left 1 maxDepth

theorem claimed_append (inFlight : List InFlight) (url : String) (depth : ℕ) :
    claimed normalizeUrl (inFlight ++ [({ url, depth } : InFlight)]) =
      claimed normalizeUrl inFlight ++ [normalizeUrl url] := by
  simp [claimed]

theorem holds_takeStep {queue : List (String × ℕ)} {inFlight : List InFlight}
    (h : Holds normalizeUrl limit maxDepth s)
    (hworking : Working normalizeUrl limit maxDepth job loop (.crawling queue inFlight)) :
    Holds normalizeUrl limit maxDepth (takeStep normalizeUrl s job loop queue inFlight) := by
  obtain ⟨hlimited, hqueue, hflight⟩ := hworking
  unfold takeStep
  cases queue with
  | nil => exact h
  | cons first queue =>
      obtain ⟨url, depth⟩ := first
      have hrest : Shallow maxDepth queue := fun p hp => hqueue p (List.mem_cons_of_mem _ hp)
      have hpending : Shallow maxDepth (loop.pending.erase (url, depth)) :=
        fun p hp => hlimited.pending p (List.mem_of_mem_erase hp)
      dsimp only
      split_ifs with hfull hdrop
      · exact h
      · exact h.go ⟨hlimited.loop_eq rfl hpending, hrest, hflight⟩
      · obtain ⟨hnew, hroom⟩ := not_or.mp hdrop
        -- what has been claimed before is visited, and the new page is not
        have honce {pages : List String}
            (hpages : ∀ u ∈ pages, u ∈ job.recorded normalizeUrl)
            (hnodup : (pages ++ claimed normalizeUrl inFlight).Nodup) :
            (pages ++ (claimed normalizeUrl inFlight ++ [normalizeUrl url])).Nodup := by
          rw [← List.append_assoc]
          refine List.nodup_append.mpr ⟨hnodup, List.nodup_singleton _, ?_⟩
          intro u hu v hv huv
          obtain rfl := List.mem_singleton.mp hv
          refine hnew (huv ▸ hlimited.seen u ?_)
          rcases List.mem_append.mp hu with hu | hu
          · exact List.mem_append_left _ (hpages u hu)
          · exact List.mem_append_right _ hu
        refine h.go ⟨⟨hlimited.terms, ?_, hpending, ?_, ?_, ?_⟩, hrest, ?_⟩
        · rw [Finset.card_insert_of_notMem hnew]
          have hlimit := hlimited.terms.1
          omega
        · rw [claimed_append, ← List.append_assoc]
          intro u hu
          rcases List.mem_append.mp hu with hu | hu
          · exact Finset.mem_insert_of_mem (hlimited.seen u hu)
          · obtain rfl := List.mem_singleton.mp hu
            exact Finset.mem_insert_self _ _
        · rw [claimed_append]
          refine honce (fun u hu => ?_) hlimited.resultsOnce
          simp only [CrawlJob.recorded, List.map_append]
          exact List.mem_append_left _ hu
        · rw [claimed_append]
          refine honce (fun u hu => ?_) hlimited.errorsOnce
          simp only [CrawlJob.recorded, List.map_append]
          exact List.mem_append_right _ hu
        · rw [List.map_append]
          refine hflight.append ?_
          intro p hp
          obtain rfl := List.mem_singleton.mp hp
          exact hqueue (url, depth) List.mem_cons_self

/-- A page goes into the results, into the errors, or into both. -/
theorem pages_recordPage (normalizeUrl : String → String) (job : CrawlJob) (loop : LoopState)
    (page : InFlight) (outcome : PageOutcome) :
    ((recordPage normalizeUrl job loop page outcome).1.results = job.results ∨
        (recordPage normalizeUrl job loop page outcome).1.results = job.results ++ [page.url]) ∧
      ((recordPage normalizeUrl job loop page outcome).1.errors = job.errors ∨
        (recordPage normalizeUrl job loop page outcome).1.errors = job.errors ++ [page.url]) := by
  cases outcome with
  | scraped links => exact ⟨.inr rfl, .inl rfl⟩
  | linksRaised =>
      refine ⟨.inr rfl, ?_⟩
      show (if _ then _ else _) = _ ∨ (if _ then _ else _) = _
      split_ifs
      · exact .inr rfl
      · exact .inl rfl
  | failed => exact ⟨.inl rfl, .inr rfl⟩
  | raised => exact ⟨.inl rfl, .inr rfl⟩

/-- A page that is recorded is not claimed any more. -/
theorem subperm_recorded {pages pages' claims claims' : List String} {url : String}
    (hpages : pages' = pages ∨ pages' = pages ++ [url])
    (hclaims : claims.Perm (normalizeUrl url :: claims')) :
    (pages'.map normalizeUrl ++ claims').Subperm (pages.map normalizeUrl ++ claims) := by
  refine List.Subperm.trans ?_ (hclaims.symm.append_left _).subperm
  rcases hpages with rfl | rfl
  · exact ((List.Sublist.refl _).append (List.sublist_cons_self _ _)).subperm
  · rw [List.map_append, List.append_assoc]
    exact List.Subperm.refl _

theorem nodup_of_subperm {pages pages' : List String} (h : pages.Subperm pages')
    (hnodup : pages'.Nodup) : pages.Nodup := by
  obtain ⟨between, hperm, hless⟩ := h
  exact hperm.nodup_iff.mp (hnodup.sublist hless)

theorem terms_recordPage (normalizeUrl : String → String) (job : CrawlJob) (loop : LoopState)
    (page : InFlight) (outcome : PageOutcome) :
    (recordPage normalizeUrl job loop page outcome).1.limit = job.limit ∧
      (recordPage normalizeUrl job loop page outcome).1.maxDepth = job.maxDepth := by
  cases outcome <;> exact ⟨rfl, rfl⟩

/-- The links of a page are followed only down to the depth that was asked for. -/
theorem shallow_recordPage (normalizeUrl : String → String) (job : CrawlJob) (loop : LoopState)
    (page : InFlight) (outcome : PageOutcome) (hdepth : job.maxDepth = maxDepth) :
    Shallow maxDepth (recordPage normalizeUrl job loop page outcome).2 := by
  cases outcome with
  | scraped links =>
      unfold recordPage
      dsimp only
      split_ifs with hdeeper
      · intro p hp
        obtain ⟨u, -, rfl⟩ := List.mem_map.mp hp
        have hfollow := hdeeper
        simp only [followsLinks, Bool.and_eq_true, decide_eq_true_eq] at hfollow
        have hbound : page.depth + 1 ≤ maxDepth := hdepth ▸ hfollow.1
        exact hbound.trans (le_max_right 1 maxDepth)
      · exact fun p hp => by cases hp
  | linksRaised => exact fun p hp => by cases hp
  | failed => exact fun p hp => by cases hp
  | raised => exact fun p hp => by cases hp

theorem holds_record {queue : List (String × ℕ)} {inFlight : List InFlight} {position : ℕ}
    {page : InFlight} (h : Holds normalizeUrl limit maxDepth s)
    (hworking : Working normalizeUrl limit maxDepth job loop (.crawling queue inFlight))
    (hpage : inFlight[position]? = some page) (hopen : page.recorded = false)
    (outcome : PageOutcome) :
    Holds normalizeUrl limit maxDepth
      (s.go (recordPage normalizeUrl job loop page outcome).1
        { loop with
          pending := loop.pending ++ (recordPage normalizeUrl job loop page outcome).2 }
        (.crawling (queue ++ (recordPage normalizeUrl job loop page outcome).2)
          (inFlight.set position { page with recorded := true }))) := by
  obtain ⟨hlimited, hqueue, hflight⟩ := hworking
  have hfound := shallow_recordPage normalizeUrl job loop page outcome hlimited.terms.2
  obtain ⟨hposition, hat⟩ := List.getElem?_eq_some_iff.mp hpage
  obtain ⟨before, after, hsplit, -, hset⟩ :=
    @List.exists_of_set _ position { page with recorded := true } inFlight hposition
  rw [hat] at hsplit
  -- the page was claimed before it is recorded, so its identity only moves
  have hclaimed : (claimed normalizeUrl inFlight).Perm
      (normalizeUrl page.url ::
        claimed normalizeUrl (inFlight.set position { page with recorded := true })) := by
    rw [hset]
    conv_lhs => rw [hsplit]
    simp only [claimed, List.filter_append, List.map_append, List.filter_cons, hopen,
      Bool.not_false, Bool.not_true, if_true, Bool.false_eq_true, if_false, List.map_cons]
    exact List.perm_middle
  obtain ⟨hresults, herrors⟩ := pages_recordPage normalizeUrl job loop page outcome
  have hresults := subperm_recorded hresults hclaimed
  have herrors := subperm_recorded herrors hclaimed
  refine h.go ⟨⟨?_, hlimited.visited, hlimited.pending.append hfound, ?_,
    nodup_of_subperm hresults hlimited.resultsOnce, nodup_of_subperm herrors hlimited.errorsOnce⟩,
    hqueue.append hfound, ?_⟩
  · obtain ⟨hlimit, hdepth⟩ := terms_recordPage normalizeUrl job loop page outcome
    exact ⟨hlimit.trans hlimited.terms.1, hdepth.trans hlimited.terms.2⟩
  · intro u hu
    apply hlimited.seen u
    simp only [CrawlJob.recorded, List.map_append, List.mem_append] at hu ⊢
    rcases hu with (hu | hu) | hu
    · rcases List.mem_append.mp (hresults.subset (List.mem_append_left _ hu)) with hu | hu
      · exact .inl (.inl hu)
      · exact .inr hu
    · rcases List.mem_append.mp (herrors.subset (List.mem_append_left _ hu)) with hu | hu
      · exact .inl (.inr hu)
      · exact .inr hu
    · exact .inr (hclaimed.symm.subset (List.mem_cons_of_mem _ hu))
  · intro p hp
    obtain ⟨entry, hentry, rfl⟩ := List.mem_map.mp hp
    rcases List.mem_or_eq_of_mem_set hentry with hentry | rfl
    · exact hflight _ (List.mem_map_of_mem hentry)
    · exact hflight (page.url, page.depth)
        (List.mem_map.mpr ⟨page, List.mem_of_getElem? hpage, rfl⟩)

theorem holds_settle {queue : List (String × ℕ)} {inFlight : List InFlight} (position : ℕ)
    (hworking : Working normalizeUrl limit maxDepth job loop (.crawling queue inFlight)) :
    Working normalizeUrl limit maxDepth job loop
      (.crawling queue (inFlight.eraseIdx position)) := by
  obtain ⟨hlimited, hqueue, hflight⟩ := hworking
  have hless : (inFlight.eraseIdx position).Sublist inFlight := List.eraseIdx_sublist _ _
  refine ⟨hlimited.sublist ((hless.filter _).map _), hqueue, ?_⟩
  exact fun p hp => hflight p ((hless.map _).subset hp)

theorem holds_workStep {queue : List (String × ℕ)} {inFlight : List InFlight} (e : Event)
    (h : Holds normalizeUrl limit maxDepth s)
    (hworking : Working normalizeUrl limit maxDepth job loop (.crawling queue inFlight)) :
    Holds normalizeUrl limit maxDepth (workStep normalizeUrl s job loop queue inFlight e) := by
  cases e with
  | take => exact holds_takeStep h hworking
  | shot position =>
      unfold workStep
      dsimp only
      split
      · split_ifs
        · exact h
        · exact h.go ⟨hworking.1.loop_eq rfl hworking.1.pending, hworking.2⟩
      · exact h
  | record position outcome =>
      unfold workStep
      dsimp only
      split
      · rename_i page hpage
        split_ifs with hrecorded
        · exact h
        · exact holds_record h hworking hpage (by simpa using hrecorded) outcome
      · exact h
  | settle position due =>
      unfold workStep
      dsimp only
      split
      · split_ifs
        · exact h
        · exact h.store (holds_settle position hworking)
        · exact h.go (holds_settle position hworking)
      · exact h
  | finish =>
      unfold workStep
      dsimp only
      split_ifs
      · exact h.go (hworking.1.alone.job_eq ⟨rfl, rfl⟩ ⟨rfl, rfl⟩)
      · exact h.go (hworking.1.alone.job_eq ⟨rfl, rfl⟩ ⟨rfl, rfl⟩)
      · exact h
  | start sitemap => exact h
  | save ok => exact h
  | delete ok => exact h
  | disk writable => exact h
  | crash => exact h
  | restore => exact h
  | resume => exact h

theorem holds_runStep {point : Point} (e : Event) (h : Holds normalizeUrl limit maxDepth s)
    (hworking : Working normalizeUrl limit maxDepth job loop point) :
    Holds normalizeUrl limit maxDepth (runStep normalizeUrl s job loop point e) := by
  unfold runStep
  split
  · exact holds_startStep h hworking.alone _
  · exact holds_workStep _ h hworking
  · split_ifs
    · refine ⟨hworking.alone, h.disk, h.written, ?_⟩
      intro j hj
      rcases List.mem_append.mp hj with hj | hj
      · exact h.artifacts j hj
      · obtain rfl := List.mem_singleton.mp hj
        exact hworking.alone.stored
    · exact h.go hworking.alone
  · refine ⟨hworking.alone, ?_, h.written, h.artifacts⟩
    intro saved hsaved
    dsimp only at hsaved
    split_ifs at hsaved
    exact h.disk saved hsaved
  · exact h

/-- What was claimed and not recorded when the process died counts as not visited. -/
theorem holds_resumeStep (h : Holds normalizeUrl limit maxDepth s)
    (hlimited : Limited normalizeUrl limit maxDepth job loop []) :
    Holds normalizeUrl limit maxDepth (resumeStep normalizeUrl s job loop) := by
  refine h.go ⟨hlimited.terms, ?_, hlimited.pending, ?_, hlimited.resultsOnce,
    hlimited.errorsOnce⟩
  · exact (Finset.card_filter_le _ _).trans hlimited.visited
  · intro u hu
    refine Finset.mem_filter.mpr ⟨hlimited.seen u hu, ?_⟩
    simpa [CrawlJob.recorded] using hu

theorem holds_restoreStep (h : Holds normalizeUrl limit maxDepth s) :
    Holds normalizeUrl limit maxDepth (restoreStep s) := by
  unfold restoreStep
  cases hdisk : s.checkpoint with
  | none => exact h
  | some saved =>
      obtain ⟨job, loop⟩ := saved
      dsimp only
      split_ifs
      · -- the checkpoint of a crawl that has ended is deleted
        refine ⟨h.process, ?_, h.written, h.artifacts⟩
        rintro saved ⟨⟩
      · refine ⟨?_, ?_, h.written, h.artifacts⟩
        · exact (h.disk _ hdisk).job_eq ⟨rfl, rfl⟩ ⟨rfl, rfl⟩
        · exact fun saved hsaved => h.disk saved (hdisk.trans hsaved)

theorem holds_step (e : Event) (h : Holds normalizeUrl limit maxDepth s) :
    Holds normalizeUrl limit maxDepth (step normalizeUrl e s) := by
  have hprocess := h.process
  unfold step
  split
  · exact ⟨trivial, h.disk, h.written, h.artifacts⟩
  · exact ⟨h.process, h.disk, h.written, h.artifacts⟩
  · exact holds_restoreStep h
  · rename_i job loop heq
    rw [heq] at hprocess
    exact holds_resumeStep h hprocess
  · rename_i job loop point heq
    rw [heq] at hprocess
    exact holds_runStep _ h hprocess
  · exact h

/-! ## Every crawl -/

/-- The jobs there are: in memory, in the checkpoint, in all that was written to it, and
in the artifacts. -/
def System.jobs (s : System) : List CrawlJob :=
  (match s.process with
    | .absent => []
    | .interrupted job _ => [job]
    | .running job _ _ => [job]) ++ (s.checkpoint.toList ++ s.written).map Saved.job ++ s.artifacts

theorem Holds.jobs (h : Holds normalizeUrl limit maxDepth s) :
    ∀ j ∈ s.jobs, Stored normalizeUrl limit j.results ∧ Stored normalizeUrl limit j.errors := by
  intro j hj
  simp only [System.jobs, List.map_append, List.mem_append, List.mem_map, Option.mem_toList]
    at hj
  rcases hj with (hj | ⟨saved, hsaved, rfl⟩ | ⟨saved, hsaved, rfl⟩) | hj
  · have hprocess := h.process
    cases hs : s.process with
    | absent => simp [hs] at hj
    | interrupted job loop =>
        rw [hs] at hprocess hj
        obtain rfl := List.mem_singleton.mp hj
        exact Limited.stored hprocess
    | running job loop point =>
        rw [hs] at hprocess hj
        obtain rfl := List.mem_singleton.mp hj
        exact (Working.alone hprocess).stored
  · exact (h.disk saved hsaved).stored
  · exact (h.written saved hsaved).stored
  · exact h.artifacts j hj

theorem holds_started (job : CrawlJob) (hnew : job.results = [] ∧ job.errors = []) :
    Holds normalizeUrl job.limit job.maxDepth (started job) := by
  have hnone : job.recorded normalizeUrl = [] := by simp [CrawlJob.recorded, hnew]
  refine ⟨⟨⟨rfl, rfl⟩, Nat.zero_le _, ?_, ?_, ?_, ?_⟩, ?_, ?_, ?_⟩
  · intro p hp
    obtain rfl := List.mem_singleton.mp hp
    exact Nat.zero_le _
  · rw [hnone]
    exact fun u hu => by cases hu
  · simp [hnew]
  · simp [hnew]
  · rintro saved ⟨⟩
  · exact fun saved hsaved => by cases hsaved
  · exact fun j hj => by cases hj

theorem holds_run (job : CrawlJob) (hnew : job.results = [] ∧ job.errors = [])
    (events : List Event) :
    Holds normalizeUrl job.limit job.maxDepth (run normalizeUrl job events) :=
  runFrom_invariant (P := fun _ _ => True) (fun e _ _ h => holds_step e h)
    (stepsMeet_of_forall fun _ _ _ => trivial) (holds_started job hnew)

/-- However the workers interleave and however often the process dies and resumes: in
memory, on the disk and in the artifacts no page is a result twice or an error twice, the
limit holds for the results and for the errors, and no page is scraped that is deeper than
asked for, a sitemap's pages apart. A page can be both: its links are looked at after it has
become a result. -/
theorem crawl_within_limits (normalizeUrl : String → String) (job : CrawlJob)
    (hnew : job.results = [] ∧ job.errors = []) (events : List Event) :
    (∀ j ∈ (run normalizeUrl job events).jobs,
        ((j.results.map normalizeUrl).Nodup ∧ j.results.length ≤ job.limit) ∧
          (j.errors.map normalizeUrl).Nodup ∧ j.errors.length ≤ job.limit) ∧
      ∀ j loop queue inFlight,
        (run normalizeUrl job events).process = .running j loop (.crawling queue inFlight) →
          loop.visited.card ≤ job.limit ∧
            ∀ page ∈ inFlight, page.depth ≤ max 1 job.maxDepth := by
  have hrun : Holds normalizeUrl job.limit job.maxDepth (run normalizeUrl job events) :=
    holds_run job hnew events
  constructor
  · exact hrun.jobs
  · intro j loop queue inFlight hprocess
    have hworking := hrun.process
    rw [hprocess] at hworking
    obtain ⟨hlimited, -, hflight⟩ := hworking
    refine ⟨hlimited.visited, ?_⟩
    intro page hpage
    exact hflight (page.url, page.depth) (List.mem_map.mpr ⟨page, hpage, rfl⟩)

/-- Three pages at most; the links of the second raise, and the process dies while the third
is taken. -/
def threePages : CrawlJob :=
  { baseUrl := "https://example.com", limit := 3, maxDepth := 2, useSitemap := false }

def interruptedCrawl : List Event :=
  [.start none, .take, .record 0 (.scraped ["https://example.com/a", "https://example.com/b"]),
    .settle 0 true, .take, .record 0 .linksRaised, .settle 0 true, .take, .crash, .restore,
    .resume, .start none, .take]

example : ((run id threePages interruptedCrawl).jobs.map fun j => (j.results, j.errors)).getLast? =
    some (["https://example.com", "https://example.com/a"], ["https://example.com/a"]) := by
  decide +kernel

theorem crawl_within_limits_interrupted :
    (∀ j ∈ (run id threePages interruptedCrawl).jobs,
        ((j.results.map id).Nodup ∧ j.results.length ≤ 3) ∧
          (j.errors.map id).Nodup ∧ j.errors.length ≤ 3) ∧
      ∀ j loop queue inFlight,
        (run id threePages interruptedCrawl).process = .running j loop (.crawling queue inFlight) →
          loop.visited.card ≤ 3 ∧ ∀ page ∈ inFlight, page.depth ≤ max 1 2 :=
  crawl_within_limits id threePages ⟨rfl, rfl⟩ interruptedCrawl

end CrawlTrove.Crawler
