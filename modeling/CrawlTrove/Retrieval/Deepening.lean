import CrawlTrove.Retrieval.Fusion

/-!
# Retrieval that deepens

`search` (`app/retrieval.py`): the signals of a mode are asked for so many candidates, the
ranked candidates collapse to their parents, and while there are too few of these the
candidates are doubled. Query, kind and filters stay the same during a search, so what the
index and the database answer is a function of the depth. Of a row of the database only
what decides its hit is kept.
-/

namespace CrawlTrove.Retrieval

open FirstSeen

inductive Mode
  | hybrid
  | semantic
  | keyword
deriving DecidableEq

/-! ## Ranking and collapsing -/

/-- `_parent_id`. -/
def parentId (hit : Hit) : String :=
  if hit.parentHash ≠ "" then hit.kind ++ ":hash:" ++ hit.parentHash
  else hit.kind ++ ":ref:" ++ hit.ref

/-- A parent with the chunk that ranks best, and how many have matched. -/
structure Parent where
  parentId : String
  best : Candidate
  matchedChunkCount : ℕ
deriving DecidableEq

/-- The loop of `collapse_results`. -/
def collapseInto (winners : List Parent) (source : Candidate) : List Parent :=
  if winners.any fun w => w.parentId = parentId source.hit then
    winners.map fun w =>
      if w.parentId = parentId source.hit then
        { w with matchedChunkCount := w.matchedChunkCount + 1 }
      else w
  else winners ++ [{ parentId := parentId source.hit, best := source, matchedChunkCount := 1 }]

/-- `collapse_results`. -/
def collapseResults (hits : List Candidate) (k : ℕ) : List Parent :=
  (hits.foldl collapseInto []).take k

/-- The loop of `_ranked`, from a rank on. -/
def rankedFrom (signal : Signal) (k rank : ℕ) (seen : List Key) (out : List Candidate) :
    List Hit → List Candidate
  | [] => out
  | source :: hits =>
      if source.key ∈ seen then rankedFrom signal k (rank + 1) seen out hits
      else
        let out := out ++ [Candidate.note signal rank source.score { hit := source }]
        if k ≤ out.length then out
        else rankedFrom signal k (rank + 1) (source.key :: seen) out hits

/-- `_ranked`. -/
def ranked (hits : List Hit) (signal : Signal) (k : ℕ) : List Candidate :=
  rankedFrom signal k 1 [] [] hits

/-! ## The signals -/

/-- A page the database finds. -/
structure PageRow where
  id : String
  rawJsonPath : String := ""
  parentHash : String := ""
  rank : ℚ := 0

/-- What a search asks of the rest of the program; `none` where a call raises. -/
structure Backend where
  embeddingsConfigured : Bool
  indexAvailable : Bool
  /-- `embed_query` yields a vector. -/
  embedded : Bool
  vectorSearch : ℕ → Option (List Hit)
  keywordSearch : ℕ → Option (List Hit)
  kind : Option String
  /-- There are filters. -/
  filtered : Bool
  /-- `pool.enabled()`. -/
  databaseEnabled : Bool
  searchPages : ℕ → Option (List PageRow)
  chunksForRefs : List String → ℕ → List Hit

/-- `_scrape_ref`. -/
def scrapeRef (row : PageRow) : Option String :=
  let path := row.rawJsonPath.toList
  let front := "data/scrapes/".toList
  let back := ".json".toList
  if front.isPrefixOf path && back.isSuffixOf path then
    some (String.ofList ((path.drop front.length).take
      (path.length - front.length - back.length)))
  else none

/-- The loop of `_bridge_db_rows`: a row takes the first chunk of its page that is not
used yet, those of the semantic list first. -/
def bridgeFrom (byRef : String → List Hit) (depth : ℕ) (out : List Hit) : List PageRow → List Hit
  | [] => out
  | row :: rows =>
      let used := out.map Hit.key
      let found := (byRef ((scrapeRef row).getD "")).find? fun hit => hit.key ∉ used
      let hit := found.getD
        { kind := "scrape", ref := "db:" ++ row.id, parentHash := row.parentHash }
      let out := out ++ [{ hit with score := some row.rank }]
      if depth ≤ out.length then out else bridgeFrom byRef depth out rows

variable (b : Backend)

/-- `_bridge_db_rows`. -/
def bridgeDbRows (rows : List PageRow) (semantic : List Hit) (depth : ℕ) : List Hit :=
  let refs := (rows.filterMap scrapeRef).filter (· ≠ "")
  let indexed := b.chunksForRefs refs (max (depth * 4) depth)
  bridgeFrom (fun ref => (semantic.filter fun hit => hit.kind = "scrape" ∧ hit.ref = ref) ++
    indexed.filter fun hit => hit.ref = ref) depth [] rows

/-- The database is asked as well. -/
def asksDatabase : Bool :=
  !b.filtered && b.databaseEnabled && (b.kind = none || b.kind = some "scrape")

/-- `_keyword`: the hits, and whether there is a keyword signal at all. -/
def keywordSignal (depth : ℕ) (semantic : List Hit) : Option (List Hit × Bool) :=
  let rows := if asksDatabase b then (b.searchPages depth).getD [] else []
  let dbHits := if rows = [] then [] else bridgeDbRows b rows semantic depth
  if b.indexAvailable then
    (b.keywordSearch depth).map fun fileHits => (mergeKeywordSources dbHits fileHits depth, true)
  else if dbHits ≠ [] then some (dbHits.take depth, true)
  else some ([], asksDatabase b)

/-! ## The search -/

/-- `RetrievalUnavailable`. -/
structure Unavailable where
  message : String
deriving DecidableEq

def semanticAvailable : Bool := b.embeddingsConfigured && b.indexAvailable

/-- The semantic hits of a round; a call that raises yields none. -/
def semanticHits (mode : Mode) (depth : ℕ) : List Hit :=
  if mode ≠ .keyword ∧ semanticAvailable b ∧ b.embedded then (b.vectorSearch depth).getD []
  else []

/-- The keyword hits of a round, and whether they are available. -/
def keywordHits (mode : Mode) (depth : ℕ) (semantic : List Hit) : List Hit × Bool :=
  if mode = .semantic then ([], false)
  else (keywordSignal b depth semantic).getD ([], b.indexAvailable)

/-- A round of the loop, at a depth. -/
def round (mode : Mode) (k rrfK depth : ℕ) : Except Unavailable (List Parent) :=
  let semantic := semanticHits b mode depth
  let (keyword, keywordAvailable) := keywordHits b mode depth semantic
  match mode with
  | .semantic =>
      if semanticAvailable b then .ok (collapseResults (ranked semantic .semantic depth) k)
      else .error ⟨"semantic search is not configured or available"⟩
  | .keyword =>
      if keywordAvailable then .ok (collapseResults (ranked keyword .keyword depth) k)
      else .error ⟨"keyword search is not configured or available"⟩
  | .hybrid =>
      if semanticAvailable b || keywordAvailable then
        .ok (collapseResults (reciprocalRankFusion semantic keyword
          (semantic.length + keyword.length) rrfK 1 1) k)
      else .error ⟨"no retrieval signal is configured or available"⟩

/-- The loop, at a depth that can be doubled if it has to be. -/
def deepen (k maxDepth : ℕ) (round : ℕ → Except Unavailable (List Parent)) (depth : ℕ)
    (h : maxDepth ≤ depth ∨ 0 < depth) : Except Unavailable (List Parent) :=
  match round depth with
  | .error e => .error e
  | .ok result =>
      if k ≤ result.length ∨ maxDepth ≤ depth then .ok result
      else deepen k maxDepth round (min maxDepth (depth * 2)) (by omega)
termination_by maxDepth - depth
decreasing_by omega

/-- The depth no round exceeds. -/
def maxDepth (k : ℕ) (candidateDepth : Option ℤ) : ℕ :=
  (max (k : ℤ) (min 200 ((candidateDepth.filter (· ≠ 0)).getD 200))).toNat

/-- The depth of the first round. -/
def firstDepth (k : ℕ) (candidateDepth : Option ℤ) : ℕ :=
  min (maxDepth k candidateDepth) (max 50 (k * 5))

theorem firstDepth_spec (k : ℕ) (candidateDepth : Option ℤ) :
    maxDepth k candidateDepth ≤ firstDepth k candidateDepth ∨
      0 < firstDepth k candidateDepth := by
  unfold firstDepth
  omega

/-- `search`. -/
def search (mode : Mode) (k : ℕ) (candidateDepth : Option ℤ) (rrfK : ℕ) :
    Except Unavailable (List Parent) :=
  deepen k (maxDepth k candidateDepth) (round b mode k rrfK) (firstDepth k candidateDepth)
    (firstDepth_spec k candidateDepth)

/-- The search with the greatest depth in the first round. -/
def searchAtOnce (mode : Mode) (k : ℕ) (candidateDepth : Option ℤ) (rrfK : ℕ) :
    Except Unavailable (List Parent) :=
  deepen k (maxDepth k candidateDepth) (round b mode k rrfK) (maxDepth k candidateDepth)
    (Or.inl (le_refl _))

/-! ## Longer lists -/

theorem prefix_rankedFrom (signal : Signal) (k rank : ℕ) (seen : List Key) (out : List Candidate)
    (hits : List Hit) : out <+: rankedFrom signal k rank seen out hits := by
  induction hits generalizing rank seen out with
  | nil => exact List.prefix_rfl
  | cons source hits ih =>
      unfold rankedFrom
      split
      · exact ih (rank + 1) seen out
      · dsimp only
        split
        · exact List.prefix_append _ _
        · exact (List.prefix_append _ _).trans (ih (rank + 1) (source.key :: seen) _)

/-- What is ranked of a list stays in front when the list grows. -/
theorem rankedFrom_mono {signal : Signal} {k k' : ℕ} (hk : k ≤ k') (rank : ℕ) (seen : List Key)
    (out : List Candidate) (hits more : List Hit) :
    rankedFrom signal k rank seen out hits <+:
      rankedFrom signal k' rank seen out (hits ++ more) := by
  induction hits generalizing rank seen out with
  | nil => exact prefix_rankedFrom signal k' rank seen out more
  | cons source hits ih =>
      rw [List.cons_append]
      unfold rankedFrom
      by_cases hseen : source.key ∈ seen
      · rw [if_pos hseen, if_pos hseen]
        exact ih (rank + 1) seen out
      · rw [if_neg hseen, if_neg hseen]
        dsimp only
        by_cases hfull : k ≤ (out ++ [Candidate.note signal rank source.score
            { hit := source }]).length
        · rw [if_pos hfull]
          split
          · exact List.prefix_rfl
          · exact prefix_rankedFrom signal k' (rank + 1) (source.key :: seen) _ (hits ++ more)
        · rw [if_neg hfull, if_neg fun h => hfull (hk.trans h)]
          exact ih (rank + 1) (source.key :: seen) _

theorem ranked_mono {signal : Signal} {k k' : ℕ} {hits hits' : List Hit} (hk : k ≤ k')
    (h : hits <+: hits') : ranked hits signal k <+: ranked hits' signal k' := by
  obtain ⟨more, rfl⟩ := h
  exact rankedFrom_mono hk 1 [] [] hits more

theorem firstsBy_mono {α κ : Type*} [DecidableEq κ] {key : α → κ} {xs ys : List α}
    (h : xs <+: ys) : firstsBy key [] xs <+: firstsBy key [] ys := by
  obtain ⟨more, rfl⟩ := h
  rw [firstsBy_append]
  exact List.prefix_append _ _

/-- The parents with their best chunks, whatever the number of matches. -/
def bests (parents : List Parent) : List (String × Candidate) :=
  parents.map fun w => (w.parentId, w.best)

def parentOf (c : Candidate) : String := parentId c.hit

theorem bests_collapseInto (winners : List Parent) (source : Candidate) :
    bests (collapseInto winners source) =
      if parentOf source ∈ winners.map Parent.parentId then bests winners
      else bests winners ++ [(parentOf source, source)] := by
  have hany : (winners.any fun w => w.parentId = parentId source.hit) = true ↔
      parentOf source ∈ winners.map Parent.parentId := by
    simp [List.any_eq_true, parentOf]
  unfold collapseInto
  by_cases h : parentOf source ∈ winners.map Parent.parentId
  · rw [if_pos (hany.mpr h), if_pos h, bests, bests, List.map_map]
    refine List.map_congr_left ?_
    intro w _
    rw [Function.comp_apply]
    split
    · rfl
    · rfl
  · rw [if_neg fun h' => h (hany.mp h'), if_neg h, bests, List.map_append]
    rfl

theorem bests_foldl (hits : List Candidate) (winners : List Parent) :
    bests (hits.foldl collapseInto winners) = bests winners ++
      (firstsBy parentOf (winners.map Parent.parentId) hits).map fun c => (parentOf c, c) := by
  induction hits generalizing winners with
  | nil => simp
  | cons source hits ih =>
      have hids : ∀ parents : List Parent,
          parents.map Parent.parentId = (bests parents).map Prod.fst := by
        intro parents
        rw [bests, List.map_map]
        rfl
      have hstep := bests_collapseInto winners source
      rw [List.foldl_cons, ih, hids, hstep]
      by_cases h : parentOf source ∈ winners.map Parent.parentId
      · rw [if_pos h, firstsBy_cons_of_mem hits h, ← hids]
      · rw [if_neg h, firstsBy_cons_of_notMem hits h, List.map_append, ← hids, List.map_cons,
          List.append_assoc]
        congr 1
        rw [List.singleton_append]
        congr 2
        refine firstsBy_congr hits fun pid => ?_
        rw [List.mem_append]
        show _ ∨ pid ∈ [parentOf source] ↔ _
        rw [List.mem_singleton, List.mem_cons, or_comm]

theorem bests_collapseResults (hits : List Candidate) (k : ℕ) :
    bests (collapseResults hits k) =
      ((firstsBy parentOf [] hits).map fun c => (parentOf c, c)).take k := by
  have h := bests_foldl hits []
  rw [collapseResults, bests, List.map_take]
  exact congrArg (List.take k) h

/-- With enough parents more candidates change nothing. -/
theorem bests_stable {hits hits' : List Candidate} {k : ℕ} (h : hits <+: hits')
    (hlength : k ≤ (collapseResults hits k).length) :
    bests (collapseResults hits k) = bests (collapseResults hits' k) := by
  rw [bests_collapseResults, bests_collapseResults]
  have hprefix : (firstsBy parentOf [] hits).map (fun c => (parentOf c, c)) <+:
      (firstsBy parentOf [] hits').map fun c => (parentOf c, c) := (firstsBy_mono h).map _
  have hlong : k ≤ ((firstsBy parentOf [] hits).map fun c => (parentOf c, c)).length := by
    have hbests := congrArg List.length (bests_collapseResults hits k)
    rw [bests, List.length_map, List.length_take] at hbests
    omega
  obtain ⟨more, hmore⟩ := hprefix
  rw [← hmore, List.take_append_of_le_length hlong]

/-! ## The rounds of one signal -/

/-- The list of the signal a mode uses. -/
def signalList (b : Backend) (mode : Mode) (depth : ℕ) : List Hit :=
  match mode with
  | .semantic => semanticHits b .semantic depth
  | .keyword => (b.keywordSearch depth).getD []
  | .hybrid => []

section Rounds

variable {b : Backend} {mode : Mode} {k rrfK : ℕ}

/-- A mode of one signal, with the signals that may be asked. -/
def SingleSignal (b : Backend) (mode : Mode) : Prop :=
  mode = .semantic ∨ (mode = .keyword ∧ b.databaseEnabled = false)

/-- The hits a round ranks. -/
def roundHits (b : Backend) (mode : Mode) (depth : ℕ) : List Hit :=
  match mode with
  | .semantic => signalList b .semantic depth
  | .keyword => (firstsBy Hit.key [] (signalList b .keyword depth)).take depth
  | .hybrid => []

def Mode.signal : Mode → Signal
  | .semantic => .semantic
  | _ => .keyword

/-- The keyword hits come from the index alone. -/
theorem keywordHits_file (hdatabase : b.databaseEnabled = false) (depth : ℕ) :
    keywordHits b .keyword depth [] =
      if b.indexAvailable then
        ((firstsBy Hit.key [] (signalList b .keyword depth)).take depth, true)
      else ([], false) := by
  have hasks : asksDatabase b = false := by
    rw [asksDatabase, hdatabase, Bool.and_false, Bool.false_and]
  unfold keywordHits keywordSignal
  rw [if_neg (by decide), hasks]
  simp only [Bool.false_eq_true, if_false, if_true]
  by_cases havailable : b.indexAvailable = true
  · rw [if_pos havailable, if_pos havailable, signalList]
    cases hhits : b.keywordSearch depth with
    | some hits =>
        show (mergeKeywordSources [] hits depth, true) = _
        rw [mergeKeywordSources_file]
        rfl
    | none =>
        show ([], b.indexAvailable) = (([] : List Hit).take depth, true)
        rw [havailable, List.take_nil]
  · rw [if_neg havailable, if_neg havailable]
    rfl

/-- A round ranks and collapses its hits, or the signal is not there at any depth. -/
theorem round_single (hsingle : SingleSignal b mode) :
    (∃ e, ∀ depth, round b mode k rrfK depth = .error e) ∨
      ∀ depth, round b mode k rrfK depth =
        .ok (collapseResults (ranked (roundHits b mode depth) mode.signal depth) k) := by
  rcases hsingle with rfl | ⟨rfl, hdatabase⟩
  · by_cases havailable : semanticAvailable b = true
    · refine Or.inr fun depth => ?_
      show (if semanticAvailable b = true then _ else _) = _
      rw [if_pos havailable]
      rfl
    · refine Or.inl ⟨⟨"semantic search is not configured or available"⟩, fun depth => ?_⟩
      show (if semanticAvailable b = true then _ else _) = _
      rw [if_neg havailable]
  · have hsemantic : ∀ depth, semanticHits b .keyword depth = [] := by
      intro depth
      exact if_neg fun h => h.1 rfl
    have hround : ∀ depth, round b .keyword k rrfK depth =
        if (keywordHits b .keyword depth []).2 = true then
          .ok (collapseResults (ranked (keywordHits b .keyword depth []).1 .keyword depth) k)
        else .error ⟨"keyword search is not configured or available"⟩ := by
      intro depth
      unfold round
      rw [hsemantic]
    by_cases havailable : b.indexAvailable = true
    · refine Or.inr fun depth => ?_
      rw [hround, keywordHits_file hdatabase, if_pos havailable, if_pos rfl]
      rfl
    · refine Or.inl ⟨⟨"keyword search is not configured or available"⟩, fun depth => ?_⟩
      rw [hround, keywordHits_file hdatabase, if_neg havailable, if_neg Bool.false_ne_true]

/-- The signal's list grows at its end only. -/
def GrowsWithDepth (b : Backend) (mode : Mode) : Prop :=
  ∀ depth depth', depth ≤ depth' → signalList b mode depth <+: signalList b mode depth'

theorem roundHits_mono (h : GrowsWithDepth b mode) {depth depth' : ℕ} (hle : depth ≤ depth') :
    roundHits b mode depth <+: roundHits b mode depth' := by
  cases mode with
  | semantic => exact h depth depth' hle
  | keyword =>
      have hfirsts : firstsBy Hit.key [] (signalList b .keyword depth) <+:
          firstsBy Hit.key [] (signalList b .keyword depth') := firstsBy_mono (h depth depth' hle)
      exact (hfirsts.take depth).trans (List.take_prefix_take_left hle)
  | hybrid => exact List.prefix_rfl

theorem deepen_error {greatest depth : ℕ} {round : ℕ → Except Unavailable (List Parent)}
    {e : Unavailable} (h : ∀ depth, round depth = .error e)
    (hdepth : greatest ≤ depth ∨ 0 < depth) : deepen k greatest round depth hdepth = .error e := by
  unfold deepen
  rw [h]

/-- The loop ends with the parents of the greatest depth. -/
theorem bests_deepen {greatest : ℕ} {hits : ℕ → List Candidate}
    {round : ℕ → Except Unavailable (List Parent)}
    (hround : ∀ depth, round depth = .ok (collapseResults (hits depth) k))
    (hgrows : ∀ depth depth', depth ≤ depth' → hits depth <+: hits depth') (depth : ℕ)
    (hdepth : greatest ≤ depth ∨ 0 < depth) (hle : depth ≤ greatest) :
    (deepen k greatest round depth hdepth).map bests =
      .ok (bests (collapseResults (hits greatest) k)) := by
  induction hremaining : greatest - depth using Nat.strong_induction_on generalizing depth with
  | _ remaining ih =>
      unfold deepen
      rw [hround]
      dsimp only
      split
      · rename_i hdone
        rcases hdone with hlength | hgreatest
        · exact congrArg Except.ok (bests_stable (hgrows depth greatest hle) hlength)
        · rw [Nat.le_antisymm hle hgreatest]
          rfl
      · rename_i hnext
        obtain ⟨-, hlt⟩ := not_or.mp hnext
        exact ih (greatest - min greatest (depth * 2)) (by omega) _ _ (Nat.min_le_left _ _) rfl

end Rounds

/-- Deepening loses nothing: in a search with one signal the parents and their best chunks
are those of the greatest depth. -/
theorem search_deepens (b : Backend) (mode : Mode) (k : ℕ) (candidateDepth : Option ℤ) (rrfK : ℕ)
    (hsingle : SingleSignal b mode) (hgrows : GrowsWithDepth b mode) :
    (search b mode k candidateDepth rrfK).map bests =
      (searchAtOnce b mode k candidateDepth rrfK).map bests := by
  rcases @round_single b mode k rrfK hsingle with ⟨e, herror⟩ | hround
  · rw [search, searchAtOnce, deepen_error herror, deepen_error herror]
  · have hhits : ∀ depth depth', depth ≤ depth' →
        ranked (roundHits b mode depth) mode.signal depth <+:
          ranked (roundHits b mode depth') mode.signal depth' :=
      fun depth depth' hle => ranked_mono hle (roundHits_mono hgrows hle)
    have hfirst : firstDepth k candidateDepth ≤ maxDepth k candidateDepth := Nat.min_le_left _ _
    rw [search, searchAtOnce, bests_deepen hround hhits _ _ hfirst,
      bests_deepen hround hhits _ _ (le_refl _)]

namespace Sample

/-- Two pages, the first of them with sixty chunks. -/
def hits : List Hit :=
  (List.range 60).map (fun i => { kind := "scrape", ref := "a", chunkIndex := i }) ++
    [{ kind := "scrape", ref := "b" }]

/-- Only the index answers, with as many hits as it is asked for. -/
def indexOnly : Backend where
  embeddingsConfigured := true
  indexAvailable := true
  embedded := true
  vectorSearch depth := some (hits.take depth)
  keywordSearch depth := some (hits.take depth)
  kind := none
  filtered := false
  databaseEnabled := false
  searchPages _ := none
  chunksForRefs _ _ := []

/-- The first round sees chunks of one page only, too few for two results. -/
theorem search_deepens_indexOnly :
    (∀ hit ∈ hits.take (firstDepth 2 none), hit.ref = "a") ∧
      (search indexOnly .keyword 2 none 60).map bests =
        (searchAtOnce indexOnly .keyword 2 none 60).map bests := by
  refine ⟨by decide, ?_⟩
  exact search_deepens indexOnly .keyword 2 none 60 (Or.inr ⟨rfl, rfl⟩)
    fun _ _ hle => List.take_prefix_take_left hle

end Sample

end CrawlTrove.Retrieval
