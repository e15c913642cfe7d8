import CrawlTrove.Corpus.Writing

/-!
# Rebuilding the corpus

`scripts/rebuild_corpus.py` writes the records of all crawl artifacts into a new
generation, without the ledger, and puts it in the place of the corpus. Its calls of
`write_records` know each only what they have written themselves, so a content that
two artifacts share is written twice.
-/

namespace CrawlTrove.Corpus

open Web (Text Tables)
open FirstSeen

/-- A saved crawl. -/
structure Job where
  source : String := ""
  endTime : Text := []
  scrapedAt : Text := []
  results : List Result := []
deriving DecidableEq

/-- A file of `data/crawls`; the job is missing when it cannot be read. -/
structure Artifact where
  name : String
  job : Option Job
deriving DecidableEq

structure RebuildOptions where
  sourceOverride : Option String := none
  defaultSource : String := "unknown"
  tierOverrides : TierOverrides := {}
  lowTierRagOnly : Option Bool := none
  clearSftState : Bool := false

/-- `_source_for`. -/
def sourceFor (job : Job) (opts : RebuildOptions) : String :=
  match opts.sourceOverride with
  | some source => if source ≠ "" then source else if job.source ≠ "" then job.source
      else opts.defaultSource
  | none => if job.source ≠ "" then job.source else opts.defaultSource

/-- `_merge_counts`. -/
def mergeCounts {κ : Type} [DecidableEq κ] (dst src : Counts κ) : Counts κ :=
  src.foldl (fun dst c => Counts.add dst c.1 c.2) dst

/-- The variables of `rebuild`. -/
structure Rebuilding where
  base : Base
  totals : Counts Target := []
  byTier : Counts QualityTier := []
  bySource : Counts String := []

section

variable (sha256 : Text → String) (tables : Tables) (env : Environment) (opts : RebuildOptions)

/-- The call of `write_records` for an artifact that can be read: its source and its
records. -/
def callOf (job : Job) : Option (String × List Record) := do
  let source := sourceFor job opts
  let scrapedAt := if job.endTime ≠ [] then job.endTime else job.scrapedAt
  let records ← job.results.mapM fun result =>
    buildRecord sha256 tables env result source scrapedAt opts.tierOverrides
  some (source, records)

/-- The options of the calls of `write_records`. -/
def rebuildOptions : WriteOptions where
  lowTierRagOnly := opts.lowTierRagOnly
  skipKnown := false
  recordProvenance := false

/-- The body of the loop, for an artifact that can be read. -/
def rebuildJob (s : Rebuilding) (call : String × List Record) : Rebuilding :=
  let b := s.base.ensureLayout
  let p := writeRecords sha256 env (rebuildOptions opts) call.1 call.2 (b.staged.getD {}) b.metadata
  { base := { b with staged := some p.tree, metadata := p.metadata }
    totals := mergeCounts s.totals p.stats.written
    byTier := mergeCounts s.byTier p.stats.byTier
    bySource := s.bySource.add call.1 ((p.stats.written.map Prod.snd).sum) }

/-- The body of the loop; `none` when a record cannot be built. -/
def rebuildArtifact (s : Rebuilding) (artifact : Artifact) : Option Rebuilding :=
  match artifact.job with
  | none => some s
  | some job => (callOf sha256 tables env opts job).map (rebuildJob sha256 env opts s)

/-- The state file of `generate_sft` goes to the new generation. -/
def carrySftState (b : Base) : Base :=
  if opts.clearSftState then b
  else
    match b.corpus with
    | some { sftState := some state, .. } =>
        { b with staged := b.staged.map fun t => { t with sftState := some state } }
    | _ => b

/-- The new generation takes the place of the corpus. -/
def swap (b : Base) : Base :=
  { b with
    backup := if b.corpus.isSome then b.corpus else b.backup
    corpus := b.staged
    staged := none }

/-- `rebuild`; `none` when it raises. -/
def rebuild (b : Base) (artifacts : List Artifact) (now : Text) : Option (Base × RebuildEvent) :=
  if artifacts = [] then none
  else do
    let s ← artifacts.foldlM (rebuildArtifact sha256 tables env opts)
      { base := { b with staged := some {} } }
    let b := swap (carrySftState opts s.base)
    let event : RebuildEvent :=
      { at_ := now
        artifacts := artifacts.length
        written := s.totals
        byTier := s.byTier
        bySource := s.bySource
        clearedSftState := opts.clearSftState }
    some ({ b with metadata := { b.metadata with rebuilds := b.metadata.rebuilds ++ [event] } },
      event)

/-- `write_records` on the same artifacts in the same order, as `build_corpus` calls it;
`none` when a record cannot be built. -/
def incremental (artifacts : List Artifact) : Option Base :=
  (artifacts.filterMap Artifact.job).mapM (callOf sha256 tables env opts) |>.map fun calls =>
    writeAll sha256 env opts.lowTierRagOnly calls {}

/-- What the records of an artifact are routed to. -/
def routedJob (job : Job) : List Line :=
  match callOf sha256 tables env opts job with
  | none => []
  | some call => routed sha256 env { lowTierRagOnly := opts.lowTierRagOnly } call.2

/-- No content is routed from two of the artifacts. -/
def NothingShared (artifacts : List Artifact) : Prop :=
  (artifacts.filterMap Artifact.job).Pairwise fun job job' =>
    ∀ line ∈ routedJob sha256 tables env opts job,
      ∀ line' ∈ routedJob sha256 tables env opts job', line.hash ≠ line'.hash

/-! ## The new generation -/

variable {sha256 tables env opts}

variable (sha256 env opts) in
/-- The step lemma. -/
theorem rebuildJob_lines (s : Rebuilding) (call : String × List Record) (staged : Tree)
    (hstaged : s.base.staged = some staged) :
    ∃ tree, (rebuildJob sha256 env opts s call).base.staged = some tree ∧
      tree.lines = staged.lines ++ firstsBy Line.hash []
        (routed sha256 env { lowTierRagOnly := opts.lowTierRagOnly } call.2) := by
  refine ⟨_, rfl, ?_⟩
  have hw : Writes (rebuildOptions opts) [] { tree := staged, metadata := s.base.metadata }
      (writeRecords sha256 env (rebuildOptions opts) call.1 call.2 staged s.base.metadata)
      (routed sha256 env (rebuildOptions opts) call.2) := write_spec call.2 staged s.base.metadata
  show (writeRecords sha256 env (rebuildOptions opts) call.1 call.2 (s.base.staged.getD {})
    s.base.metadata).tree.lines = _
  rw [hstaged]
  exact hw.lines

/-- The loop stages what each artifact is routed to, the first of each content of it. -/
theorem rebuildArtifacts_lines {artifacts : List Artifact}
    (hbuilt : ∀ job ∈ artifacts.filterMap Artifact.job,
      (callOf sha256 tables env opts job).isSome = true)
    {s : Rebuilding} {staged : Tree} (hstaged : s.base.staged = some staged) :
    ∃ s' tree, artifacts.foldlM (rebuildArtifact sha256 tables env opts) s = some s' ∧
      s'.base.staged = some tree ∧
      tree.lines = staged.lines ++ ((artifacts.filterMap Artifact.job).map fun job =>
        firstsBy Line.hash [] (routedJob sha256 tables env opts job)).flatten := by
  induction artifacts generalizing s staged with
  | nil => exact ⟨s, staged, rfl, hstaged, by simp⟩
  | cons artifact artifacts ih =>
      rw [List.foldlM_cons]
      cases hjob : artifact.job with
      | none =>
          have hfilter : (artifact :: artifacts).filterMap Artifact.job =
              artifacts.filterMap Artifact.job := List.filterMap_cons_none hjob
          rw [hfilter] at hbuilt ⊢
          simp only [rebuildArtifact, hjob]
          exact ih hbuilt hstaged
      | some job =>
          have hfilter : (artifact :: artifacts).filterMap Artifact.job =
              job :: artifacts.filterMap Artifact.job := List.filterMap_cons_some hjob
          rw [hfilter] at hbuilt ⊢
          obtain ⟨call, hcall⟩ := Option.isSome_iff_exists.mp (hbuilt job List.mem_cons_self)
          obtain ⟨tree, htree, hlines⟩ := rebuildJob_lines sha256 env opts s call staged hstaged
          obtain ⟨s', tree', hrun, htree', hlines'⟩ :=
            ih (fun job' h => hbuilt job' (List.mem_cons_of_mem _ h)) htree
          refine ⟨s', tree', ?_, htree', ?_⟩
          · simp only [rebuildArtifact, hjob, hcall]
            exact hrun
          · rw [hlines', hlines, List.map_cons, List.flatten_cons, List.append_assoc]
            simp only [routedJob, hcall]

variable (opts) in
theorem carrySftState_lines {b : Base} {tree : Tree} (h : b.staged = some tree) :
    ∃ tree', (carrySftState opts b).staged = some tree' ∧ tree'.lines = tree.lines := by
  by_cases hclear : opts.clearSftState = true
  · exact ⟨tree, by simp [carrySftState, hclear, h], rfl⟩
  · rcases hcorpus : b.corpus with _ | ⟨lines, _ | state⟩
    · exact ⟨tree, by simp [carrySftState, hclear, hcorpus, h], rfl⟩
    · exact ⟨tree, by simp [carrySftState, hclear, hcorpus, h], rfl⟩
    · exact ⟨{ tree with sftState := some state },
        by simp [carrySftState, hclear, hcorpus, h], rfl⟩

theorem rebuild_lines {artifacts : List Artifact} (hne : artifacts ≠ [])
    (hbuilt : ∀ job ∈ artifacts.filterMap Artifact.job,
      (callOf sha256 tables env opts job).isSome = true) (b : Base) (now : Text) :
    ∃ b' event, rebuild sha256 tables env opts b artifacts now = some (b', event) ∧
      b'.tree.lines = ((artifacts.filterMap Artifact.job).map fun job =>
        firstsBy Line.hash [] (routedJob sha256 tables env opts job)).flatten := by
  obtain ⟨s, tree, hrun, htree, hlines⟩ :=
    rebuildArtifacts_lines hbuilt (s := { base := { b with staged := some {} } }) rfl
  obtain ⟨tree', htree', hlines'⟩ := carrySftState_lines opts htree
  rw [rebuild, if_neg hne, hrun]
  refine ⟨_, _, rfl, ?_⟩
  show ((carrySftState opts s.base).staged.getD {}).lines = _
  rw [htree', Option.getD_some, hlines', hlines]
  rfl

/-! ## The incremental corpus -/

theorem incremental_lines {artifacts : List Artifact}
    (hbuilt : ∀ job ∈ artifacts.filterMap Artifact.job,
      (callOf sha256 tables env opts job).isSome = true) :
    ∃ b, incremental sha256 tables env opts artifacts = some b ∧
      b.tree.lines = firstsBy Line.hash [] ((artifacts.filterMap Artifact.job).map
        (routedJob sha256 tables env opts)).flatten := by
  have hcalls : ∀ jobs : List Job,
      (∀ job ∈ jobs, (callOf sha256 tables env opts job).isSome = true) →
      ∃ calls, jobs.mapM (callOf sha256 tables env opts) = some calls ∧
        asked sha256 env opts.lowTierRagOnly calls =
          (jobs.map (routedJob sha256 tables env opts)).flatten := by
    intro jobs
    induction jobs with
    | nil => exact fun _ => ⟨[], rfl, rfl⟩
    | cons job jobs ih =>
        intro h
        obtain ⟨call, hcall⟩ := Option.isSome_iff_exists.mp (h job List.mem_cons_self)
        obtain ⟨calls, hmap, hasked⟩ := ih fun j hj => h j (List.mem_cons_of_mem _ hj)
        refine ⟨call :: calls, by simp [List.mapM_cons, hcall, hmap], ?_⟩
        rw [asked, List.flatMap_cons, List.map_cons, List.flatten_cons, ← hasked]
        simp only [routedJob, hcall, asked]
  obtain ⟨calls, hmap, hasked⟩ := hcalls _ hbuilt
  refine ⟨_, by rw [incremental, hmap, Option.map_some], ?_⟩
  rw [(holds_writeAll opts.lowTierRagOnly calls).lines, hasked]

/-! ## File by file -/

theorem count_contents (lines : List Line) (line : Line) :
    lines.count line =
      ((lines.filter (·.file = line.file)).map Line.record).count line.record := by
  induction lines with
  | nil => rfl
  | cons first lines ih =>
      by_cases hfile : first.file = line.file
      · rw [List.filter_cons_of_pos (by simpa using hfile), List.map_cons, List.count_cons,
          List.count_cons, ih]
        congr 1
        obtain ⟨file, record⟩ := first
        obtain ⟨file', record'⟩ := line
        obtain rfl : file = file' := hfile
        by_cases hrec : record = record' <;> simp [hrec]
      · rw [List.filter_cons_of_neg (by simpa using hfile), ← ih]
        apply List.count_cons_of_ne
        rintro rfl
        exact hfile rfl

/-- The files have the same records, so the trees the same lines. -/
theorem perm_of_contents {tree tree' : Tree} (h : ∀ file, tree.contents file = tree'.contents file) :
    tree.lines.Perm tree'.lines := by
  rw [List.perm_iff_count]
  intro line
  rw [count_contents, count_contents]
  exact congrArg (List.count line.record) (h line.file)

/-- Keeping the first of each content in each list, or in all of them, comes to the
same in no other case than that the lists share none. -/
theorem contents_eq_iff {xss : List (List Line)} {tree tree' : Tree}
    (htree : tree.lines = (xss.map (firstsBy Line.hash [])).flatten)
    (htree' : tree'.lines = firstsBy Line.hash [] xss.flatten) :
    (∀ file, tree.contents file = tree'.contents file) ↔
      xss.Pairwise fun xs ys => ∀ x ∈ xs, ∀ y ∈ ys, x.hash ≠ y.hash := by
  constructor
  · intro h
    have hnodup : (tree.lines.map Line.hash).Nodup := by
      rw [((perm_of_contents h).map Line.hash).nodup_iff, htree']
      exact nodup_keys_firstsBy _ _
    rw [htree, List.map_flatten, List.map_map, List.nodup_flatten, List.pairwise_map] at hnodup
    refine hnodup.2.imp ?_
    intro xs ys hdisjoint x hx y hy heq
    have hkeys : ∀ zs : List Line, ∀ z ∈ zs,
        z.hash ∈ (firstsBy Line.hash [] zs).map Line.hash := fun zs z hz =>
      (mem_keys_firstsBy _ _ _).mpr ⟨List.mem_map_of_mem hz, List.not_mem_nil⟩
    exact hdisjoint (hkeys xs x hx) (heq ▸ hkeys ys y hy)
  · intro h file
    rw [Tree.contents, Tree.contents, htree, htree', firstsBy_flatten h]

theorem rebuild_agrees_iff (sha256 : Text → String) (tables : Tables) (env : Environment)
    (opts : RebuildOptions) (b : Base) (artifacts : List Artifact) (now : Text)
    (hne : artifacts ≠ [])
    (hbuilt : ∀ job ∈ artifacts.filterMap Artifact.job,
      (callOf sha256 tables env opts job).isSome = true) :
    ∃ rebuilt event scratch,
      rebuild sha256 tables env opts b artifacts now = some (rebuilt, event) ∧
      incremental sha256 tables env opts artifacts = some scratch ∧
      ((∀ file, rebuilt.tree.contents file = scratch.tree.contents file) ↔
        NothingShared sha256 tables env opts artifacts) := by
  obtain ⟨rebuilt, event, hrebuild, hlines⟩ := rebuild_lines hne hbuilt b now
  obtain ⟨scratch, hincremental, hlines'⟩ := incremental_lines hbuilt
  refine ⟨rebuilt, event, scratch, hrebuild, hincremental, ?_⟩
  have hshared : NothingShared sha256 tables env opts artifacts ↔
      ((artifacts.filterMap Artifact.job).map (routedJob sha256 tables env opts)).Pairwise
        fun xs ys => ∀ x ∈ xs, ∀ y ∈ ys, x.hash ≠ y.hash := by
    rw [NothingShared, List.pairwise_map]
  rw [hshared]
  apply contents_eq_iff _ hlines'
  rw [hlines, List.map_map]
  rfl

end

namespace Sample

def plainTables : Tables where
  lower text := text.map Char.toLower
  nfkc := id
  ipAddress _ := none

def hexDigest (text : Text) : String := String.ofList text

/-- A crawl of the Swift book that has found this page. -/
def bookCrawl (name path markdown : String) : Artifact where
  name := name
  job := some
    { source := "swift-book"
      endTime := "2026-01-02T03:04:05Z".toList
      results :=
        [{ url := ("https://docs.swift.org/" ++ path).toList, markdown := markdown.toList }] }

def differentPages : List Artifact :=
  [bookCrawl "monday.json" "closures" "# Closures\n\nBlocks of code.",
    bookCrawl "tuesday.json" "actors" "# Actors\n\nOne task at a time."]

def samePage : List Artifact :=
  [bookCrawl "monday.json" "closures" "# Closures\n\nBlocks of code.",
    bookCrawl "tuesday.json" "closures" "# Closures\n\nBlocks of code."]

theorem rebuild_agrees_iff_differentPages :
    ∃ rebuilt event scratch,
      rebuild hexDigest plainTables {} {} {} differentPages [] = some (rebuilt, event) ∧
      incremental hexDigest plainTables {} {} differentPages = some scratch ∧
      ((∀ file, rebuilt.tree.contents file = scratch.tree.contents file) ↔
        NothingShared hexDigest plainTables {} {} differentPages) :=
  rebuild_agrees_iff hexDigest plainTables {} {} {} differentPages [] (by decide)
    (by decide)

/-- Two crawls have found the same page: it is there twice after a rebuild. -/
theorem rebuild_repeats_page :
    (rebuild hexDigest plainTables {} {} {} samePage []).map
        (fun r => r.1.tree.contents ⟨.dapt, .swiftLanguage, "general".toList⟩) ≠
      (incremental hexDigest plainTables {} {} samePage).map
        fun b => b.tree.contents ⟨.dapt, .swiftLanguage, "general".toList⟩ := by
  decide

end Sample

end CrawlTrove.Corpus
