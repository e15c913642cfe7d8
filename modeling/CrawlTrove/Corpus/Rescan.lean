import CrawlTrove.Corpus.Scanning

/-!
# Chunks scanned again

The code blocks a scan of a chunk yields. A chunk without overlap yields those it was packed
from; the words carried over from the chunk before are one line of their own, which opens a
fence if it begins like one.
-/

namespace CrawlTrove.Corpus

open Web (Text)

/-! ## A run scanned again -/

/-- The lines of a block, which a scan reads as it did before: as the last ones, and with
others behind them if no fence is left open. -/
structure Read (b : Block) (lines : List Text) : Prop where
  ne_nil : lines ≠ []
  unbroken : ∀ line ∈ lines, Unbroken line
  render : b.render = join ['\n'] lines
  last : codesFrom none lines = b.codes

/-- A block that ends where its lines end. -/
def Closed (b : Block) (lines : List Text) : Prop :=
  ∀ more, codesFrom none (lines ++ more) = b.codes ++ codesFrom none more

/-- Blocks of one scan: only the last may have an open fence. -/
def Chain : List Block → Prop
  | [] => True
  | b :: blocks => ∃ lines, Read b lines ∧ (blocks ≠ [] → Closed b lines) ∧ Chain blocks

theorem Chain.append {blocks blocks' : List Block} (h : Chain (blocks ++ blocks')) :
    Chain blocks ∧ Chain blocks' := by
  induction blocks with
  | nil => exact ⟨trivial, h⟩
  | cons b blocks ih =>
      obtain ⟨lines, hread, hclosed, hrest⟩ := h
      obtain ⟨hfront, hback⟩ := ih hrest
      refine ⟨⟨lines, hread, fun hne => hclosed ?_, hfront⟩, hback⟩
      exact List.append_ne_nil_of_left_ne_nil hne blocks'

theorem chain_of_mem {runs : List (List Block)} {run : List Block} (h : Chain runs.flatten)
    (hrun : run ∈ runs) : Chain run := by
  induction runs with
  | nil => cases hrun
  | cons first runs ih =>
      obtain ⟨hfirst, hrest⟩ := Chain.append (List.flatten_cons ▸ h)
      rcases List.mem_cons.mp hrun with rfl | hrun
      · exact hfirst
      · exact ih hrest hrun

/-- The code blocks of a run that is joined are its own. -/
theorem codes_run {run : List Block} (h : Chain run) :
    codesFrom none (splitLines (join blankLine (run.map Block.render) ++ ['\n'])) =
      run.flatMap Block.codes := by
  induction run with
  | nil => rfl
  | cons b run ih =>
      obtain ⟨lines, hread, hclosed, hrest⟩ := h
      by_cases hrun : run = []
      · subst hrun
        rw [List.map_singleton, join_singleton, hread.render,
          splitLines_join hread.ne_nil hread.unbroken]
        show codesFrom none (lines ++ splitLines []) = _
        rw [show splitLines [] = [] from rfl, List.append_nil, hread.last]
        simp
      · have hmap : run.map Block.render ≠ [] := by simpa using hrun
        have hjoin : join blankLine ((b :: run).map Block.render) ++ ['\n'] =
            join ['\n'] lines ++
              '\n' :: '\n' :: (join blankLine (run.map Block.render) ++ ['\n']) := by
          rw [List.map_cons, join_cons _ _ hmap, hread.render]
          simp [blankLine]
        have hblank : ∀ s : Text, splitLines ('\n' :: s) = [] :: splitLines s :=
          fun s => splitLinesFrom_newline [] s
        rw [hjoin, splitLines_join hread.ne_nil hread.unbroken, hblank, hclosed hrun,
          codesFrom_nil_line, ih hrest, List.flatMap_cons]

theorem codes_textOf {run : List Block} (h : Chain run) :
    Alike (codes (textOf run)) (run.flatMap Block.codes) := by
  have hnewline := codes_concat (c := '\n') (by decide) (join blankLine (run.map Block.render))
  rw [codes_eq (_ ++ _), codes_run h] at hnewline
  exact (codes_trim _).trans hnewline.symm

/-! ## The blocks of a scan are a chain -/

/-- A scan of the lines of the open block comes to the same state. -/
def Open.Tracked : Open → Prop
  | .outside => True
  | .inCode fence lines =>
      lines ≠ [] ∧ (∀ line ∈ lines, Unbroken line) ∧
        ∀ more, codesFrom none (lines ++ more) = codesFrom (some (fence, lines)) more
  | .inPara lines =>
      lines ≠ [] ∧ (∀ line ∈ lines, Unbroken line) ∧
        ∀ more, codesFrom none (lines ++ more) = codesFrom none more

theorem codesFrom_of_fence {line : Text} {fence : Fence} (h : fenceOf line = some fence)
    (more : List Text) : codesFrom none (line :: more) = codesFrom (some (fence, [line])) more := by
  simp [codesFrom, readCode, h]

theorem codesFrom_of_no_fence {line : Text} (h : fenceOf line = none) (more : List Text) :
    codesFrom none (line :: more) = codesFrom none more := by
  simp [codesFrom, readCode, h]

theorem fenceOf_render_heading {level : ℕ} (h : 1 ≤ level) (title : Text) :
    fenceOf (Block.heading title level).render = none := by
  obtain ⟨n, rfl⟩ : ∃ n, level = n + 1 := ⟨level - 1, by omega⟩
  unfold fenceOf
  rw [Block.render, List.replicate_succ, List.cons_append,
    List.dropWhile_cons_of_neg (by decide)]
  simp only
  rw [if_neg]
  rintro ⟨hc | hc, -⟩
  · revert hc
    decide
  · revert hc
    decide

theorem unbroken_render_heading {line title : Text} {level : ℕ} (hline : Unbroken line)
    (h : headingOf line = some (level, title)) :
    Unbroken (Block.heading title level).render := by
  simp only [headingOf] at h
  split at h
  · cases h
    intro c hc
    rcases List.mem_append.mp hc with hc | hc
    · rw [List.eq_of_mem_replicate hc]
      decide
    · rcases List.mem_cons.mp hc with rfl | hc
      · decide
      · exact hline c (List.mem_of_mem_drop ((trim_within _).subset hc))
  · cases h

theorem enter_chain {line : Text} (hline : Unbroken line) :
    (enter line).2.Tracked ∧ ∀ rest, Chain rest → Chain ((enter line).1 ++ rest) := by
  have hunbroken : ∀ l ∈ [line], Unbroken l := by
    intro l hl
    rw [List.mem_singleton.mp hl]
    exact hline
  unfold enter
  split
  · rename_i fence hfence
    exact ⟨⟨by simp, hunbroken, codesFrom_of_fence hfence⟩, fun rest hrest => hrest⟩
  · rename_i hfence
    split
    · rename_i level title hheading
      refine ⟨trivial, fun rest hrest => ?_⟩
      have hnone := fenceOf_render_heading (level_of_headingOf hheading) title
      refine ⟨[(Block.heading title level).render], ?_, fun _ more => ?_, hrest⟩
      · exact {
          ne_nil := by simp
          unbroken := by
            intro l hl
            rw [List.mem_singleton.mp hl]
            exact unbroken_render_heading hline hheading
          render := (join_singleton _ _).symm
          last := codesFrom_of_no_fence hnone [] }
      · exact codesFrom_of_no_fence hnone more
    · split
      · exact ⟨trivial, fun rest hrest => hrest⟩
      · exact ⟨⟨by simp, hunbroken, codesFrom_of_no_fence hfence⟩, fun rest hrest => hrest⟩

theorem readLine_chain {current : Open} {line : Text} (h : current.Tracked)
    (hline : Unbroken line) :
    (readLine line current).2.Tracked ∧
      ∀ rest, Chain rest → Chain ((readLine line current).1 ++ rest) := by
  have hconcat : ∀ {lines : List Text}, (∀ l ∈ lines, Unbroken l) →
      ∀ l ∈ lines ++ [line], Unbroken l := by
    intro lines hlines l hl
    rcases List.mem_append.mp hl with hl | hl
    · exact hlines l hl
    · rw [List.mem_singleton.mp hl]
      exact hline
  cases current with
  | outside => exact enter_chain hline
  | inCode fence lines =>
      obtain ⟨hne, hunbroken, hscan⟩ := h
      rw [readLine]
      split
      · rename_i hclosed
        refine ⟨trivial, fun rest hrest => ?_⟩
        have hall : ∀ more, codesFrom none (lines ++ [line] ++ more) =
            (Block.code (join ['\n'] (lines ++ [line]))).codes ++ codesFrom none more := by
          intro more
          rw [List.append_assoc, hscan]
          simp [codesFrom, readCode, hclosed, Block.codes]
        refine ⟨lines ++ [line], ?_, fun _ => hall, hrest⟩
        have hlast := hall []
        rw [List.append_nil] at hlast
        exact ⟨by simp, hconcat hunbroken, rfl, hlast⟩
      · rename_i hclosed
        refine ⟨⟨by simp, hconcat hunbroken, fun more => ?_⟩, fun rest hrest => hrest⟩
        rw [List.append_assoc, hscan]
        simp [codesFrom, readCode, hclosed]
  | inPara lines =>
      obtain ⟨hne, hunbroken, hscan⟩ := h
      rw [readLine]
      split
      · obtain ⟨htracked, hchain⟩ := enter_chain hline
        refine ⟨htracked, fun rest hrest => ?_⟩
        refine ⟨lines, ?_, fun _ => hscan, hchain rest hrest⟩
        have hlast := hscan []
        rw [List.append_nil] at hlast
        exact ⟨hne, hunbroken, rfl, hlast⟩
      · rename_i hplain
        have hfence : fenceOf line = none := by
          rw [← Option.not_isSome_iff_eq_none]
          exact fun hsome => hplain (Or.inr (Or.inr hsome))
        refine ⟨⟨by simp, hconcat hunbroken, fun more => ?_⟩, fun rest hrest => hrest⟩
        rw [List.append_assoc, hscan]
        exact codesFrom_of_no_fence hfence more

theorem finish_chain {current : Open} (h : current.Tracked) : Chain current.finish := by
  cases current with
  | outside => exact trivial
  | inCode fence lines =>
      obtain ⟨hne, hunbroken, hscan⟩ := h
      have hlast := hscan []
      rw [List.append_nil] at hlast
      exact ⟨lines, ⟨hne, hunbroken, rfl, hlast⟩, fun h => absurd rfl h, trivial⟩
  | inPara lines =>
      obtain ⟨hne, hunbroken, hscan⟩ := h
      have hlast := hscan []
      rw [List.append_nil] at hlast
      exact ⟨lines, ⟨hne, hunbroken, rfl, hlast⟩, fun h => absurd rfl h, trivial⟩

theorem blocksFrom_chain (lines : List Text) : ∀ current : Open, current.Tracked →
    (∀ line ∈ lines, Unbroken line) → Chain (blocksFrom current lines) := by
  induction lines with
  | nil =>
      intro current h _
      exact finish_chain h
  | cons line lines ih =>
      intro current h hlines
      obtain ⟨hnext, hchain⟩ := readLine_chain h (hlines line List.mem_cons_self)
      exact hchain _ (ih _ hnext fun l hl => hlines l (List.mem_cons_of_mem line hl))

theorem iterBlocks_chain (markdown : Text) : Chain (iterBlocks markdown) :=
  blocksFrom_chain _ .outside trivial fun _ h => unbroken_of_mem h

/-! ## The overlap -/

theorem unbroken_tailOverlap (text : Text) (overlapTokens : ℕ) :
    Unbroken (tailOverlap text overlapTokens) := by
  intro c hc
  rcases mem_join hc with hc | ⟨w, hw, hc⟩
  · rw [List.mem_singleton.mp hc]
    decide
  · have hspace := (isWord_of_mem_words (List.mem_of_mem_drop hw)).2 c hc
    by_contra hbreak
    rw [isSpace_of_isLineBreak (by simpa using hbreak)] at hspace
    cases hspace

theorem trim_tailOverlap (text : Text) (overlapTokens : ℕ) :
    trim (tailOverlap text overlapTokens) = tailOverlap text overlapTokens :=
  trim_join_words fun _ hw => isWord_of_mem_words (List.mem_of_mem_drop hw)

/-- A line and a blank one in front of a text are scanned before it. -/
theorem codes_behind {line : Text} (hline : Unbroken line) (s : Text) :
    codes (line ++ '\n' :: '\n' :: s) = codesFrom none (line :: [] :: splitLines s) := by
  have hblank : splitLines ('\n' :: s) = [] :: splitLines s := splitLinesFrom_newline [] s
  rw [codes_eq, splitLines_append hline, hblank]

theorem codes_behind_plain {line : Text} (hline : Unbroken line) (h : fenceOf line = none)
    (s : Text) : codes (line ++ '\n' :: '\n' :: s) = codes s := by
  rw [codes_behind hline, codesFrom_of_no_fence h, codesFrom_nil_line, codes_eq]

/-- What is scanned inside of a fence begins with its lines. -/
theorem codesFrom_fence (fence : Fence) (lines : List Text) : ∀ front : List Text,
    ∃ more, ∃ rest, codesFrom (some (fence, front)) lines =
      join ['\n'] (front ++ more) :: rest := by
  induction lines with
  | nil =>
      intro front
      exact ⟨[], [], by rw [List.append_nil]; rfl⟩
  | cons line lines ih =>
      intro front
      simp only [codesFrom, readCode]
      split
      · exact ⟨[line], _, rfl⟩
      · obtain ⟨more, rest, hcodes⟩ := ih (front ++ [line])
        exact ⟨line :: more, rest, by simpa using hcodes⟩

/-- A line that opens a fence is the first of a code block. -/
theorem codes_behind_fence {line : Text} (hline : Unbroken line) (h : (fenceOf line).isSome)
    (s : Text) : ∃ t ∈ codes (line ++ '\n' :: '\n' :: s), line <:+: t := by
  obtain ⟨fence, hfence⟩ := Option.isSome_iff_exists.mp h
  obtain ⟨more, rest, hcodes⟩ := codesFrom_fence fence ([] :: splitLines s) [line]
  rw [codes_behind hline, codesFrom_of_fence hfence, hcodes]
  exact ⟨_, List.mem_cons_self, infix_join (by simp)⟩

/-- The chunks before the loop over the overlaps. -/
def packedChunks (markdown : Text) (window : Window) : List Chunk :=
  ((iterBlocks markdown).foldl (Chunker.addBlock window) {}).flush.chunks

/-- Every code block a scan of the chunk yields is one of the page, and stands in what was
packed into the chunk. -/
def Intact (markdown : Text) (chunk packed : Chunk) : Prop :=
  ∀ t ∈ codes chunk.text,
    ∃ s ∈ codes markdown, trim s = trim t ∧ trim t <:+: packed.text

/-- No chunk gets words in front of it that begin like a fence. The loop goes over the packed
chunks with the text of the chunk in front, as it has left it. -/
def PlainTails (overlapTokens : ℕ) (previous : Text) : List Chunk → Prop
  | [] => True
  | chunk :: chunks =>
      let tail := tailOverlap previous overlapTokens
      if tail = [] ∨ tail <:+: chunk.text then PlainTails overlapTokens chunk.text chunks
      else fenceOf tail = none ∧
        PlainTails overlapTokens (tail ++ '\n' :: '\n' :: chunk.text) chunks

theorem intact_packed {markdown : Text} {window : Window} {chunk : Chunk}
    (h : chunk ∈ packedChunks markdown window) : Intact markdown chunk chunk := by
  obtain ⟨runs, hflatten, hne, hchunks⟩ := chunks_partition markdown window
  have hchain : Chain runs.flatten := by
    rw [hflatten]
    exact iterBlocks_chain markdown
  obtain ⟨run, hrun, htext⟩ : ∃ run ∈ runs, chunk.text = textOf run := by
    rw [packedChunks, hchunks] at h
    exact exists_run h
  intro t ht
  have halike := codes_textOf (chain_of_mem hchain hrun)
  rw [htext] at ht
  have hmem : trim t ∈ (run.flatMap Block.codes).map trim := by
    rw [← halike]
    exact List.mem_map_of_mem ht
  obtain ⟨s, hs, hst⟩ := List.mem_map.mp hmem
  obtain ⟨b, hb, hsb⟩ := List.mem_flatMap.mp hs
  have hsource : b ∈ iterBlocks markdown := by
    rw [← hflatten]
    exact List.mem_flatten_of_mem hrun hb
  refine ⟨s, List.mem_flatMap.mpr ⟨b, hsource, hsb⟩, hst, ?_⟩
  have hrender : s = b.render := by
    cases b with
    | heading title level => cases hsb
    | code text => exact List.mem_singleton.mp hsb
    | para text => cases hsb
  rw [← hst, htext, hrender]
  exact trim_infix_trim (infix_join (List.mem_map_of_mem hb))

/-- The fence of a tail swallows what no block of the chunk holds. -/
theorem not_intact_of_fence {markdown previous : Text} {overlapTokens : ℕ} {chunk packed : Chunk}
    (hfence : (fenceOf (tailOverlap previous overlapTokens)).isSome)
    (hpacked : ¬ tailOverlap previous overlapTokens <:+: packed.text)
    (htext : chunk.text =
      tailOverlap previous overlapTokens ++ '\n' :: '\n' :: packed.text) :
    ¬ Intact markdown chunk packed := by
  intro h
  obtain ⟨t, ht, hline⟩ := codes_behind_fence (unbroken_tailOverlap previous overlapTokens)
    hfence packed.text
  rw [← htext] at ht
  obtain ⟨s, hs, hst, hwithin⟩ := h t ht
  apply hpacked
  have htail := trim_infix_trim hline
  rw [trim_tailOverlap] at htail
  exact htail.trans hwithin

theorem overlapFrom_intact_iff {markdown : Text} {overlapTokens : ℕ} (chunks : List Chunk) :
    ∀ previous : Text, (∀ chunk ∈ chunks, Intact markdown chunk chunk) →
      (List.Forall₂ (Intact markdown) (overlapFrom overlapTokens previous chunks) chunks ↔
        PlainTails overlapTokens previous chunks) := by
  induction chunks with
  | nil =>
      intro previous _
      exact iff_of_true List.Forall₂.nil trivial
  | cons chunk chunks ih =>
      intro previous hall
      have hchunk := hall chunk List.mem_cons_self
      have hrest : ∀ c ∈ chunks, Intact markdown c c :=
        fun c hc => hall c (List.mem_cons_of_mem chunk hc)
      simp only [overlapFrom, PlainTails, List.forall₂_cons]
      split
      · rw [ih chunk.text hrest]
        exact and_iff_right hchunk
      · rename_i htail
        rw [ih _ hrest]
        apply and_congr_left
        intro _
        constructor
        · intro hintact
          by_contra hfence
          exact not_intact_of_fence (Option.isSome_iff_ne_none.mpr hfence)
            (fun hwithin => htail (Or.inr hwithin)) rfl hintact
        · intro hfence t ht
          rw [codes_behind_plain (unbroken_tailOverlap previous overlapTokens) hfence] at ht
          exact hchunk t ht

/-- The first chunk has none in front of it. `packedChunks` is `chunk_markdown` with an overlap
of 0 but for the indices, so of a page and a window this says: no tail of one of its chunks
opens a fence in front of the next one. -/
def OpensNoFence (overlapTokens : ℕ) : List Chunk → Prop
  | [] => True
  | chunk :: chunks => PlainTails overlapTokens chunk.text chunks

theorem tailOverlap_zero (text : Text) : tailOverlap text 0 = [] := by
  unfold tailOverlap
  simp [join]

theorem plainTails_zero (chunks : List Chunk) : ∀ previous : Text,
    PlainTails 0 previous chunks := by
  induction chunks with
  | nil =>
      intro previous
      exact trivial
  | cons chunk chunks ih =>
      intro previous
      simp only [PlainTails, tailOverlap_zero, true_or, if_true]
      exact ih chunk.text

theorem addOverlap_intact_iff {markdown : Text} {overlapTokens : ℕ} (chunks : List Chunk)
    (hall : ∀ chunk ∈ chunks, Intact markdown chunk chunk) :
    List.Forall₂ (Intact markdown) (addOverlap overlapTokens chunks) chunks ↔
      OpensNoFence overlapTokens chunks := by
  cases chunks with
  | nil => exact iff_of_true List.Forall₂.nil trivial
  | cons chunk chunks =>
      have hchunk := hall chunk List.mem_cons_self
      have hrest : ∀ c ∈ chunks, Intact markdown c c :=
        fun c hc => hall c (List.mem_cons_of_mem chunk hc)
      by_cases hzero : overlapTokens = 0
      · subst hzero
        rw [addOverlap_zero]
        exact iff_of_true (List.forall₂_same.mpr hall) (plainTails_zero chunks chunk.text)
      · rw [addOverlap, if_neg hzero, List.forall₂_cons, overlapFrom_intact_iff chunks _ hrest]
        exact and_iff_right hchunk

theorem forall₂_mapIdx {R : Chunk → Chunk → Prop} (hR : ∀ c d p : Chunk, c.text = d.text →
    (R c p ↔ R d p)) (chunks : List Chunk) : ∀ (packed : List Chunk) (f : ℕ → Chunk → Chunk),
      (∀ idx c, (f idx c).text = c.text) →
        (List.Forall₂ R (chunks.mapIdx f) packed ↔ List.Forall₂ R chunks packed) := by
  induction chunks with
  | nil =>
      intro packed f hf
      rfl
  | cons chunk chunks ih =>
      intro packed f hf
      cases packed with
      | nil => simp
      | cons p packed =>
          rw [List.mapIdx_cons, List.forall₂_cons, List.forall₂_cons,
            hR _ chunk p (hf 0 chunk), ih packed _ fun idx c => hf (idx + 1) c]

/-- The chunks keep the code blocks of the page intact exactly when no tail opens a fence. -/
theorem chunkMarkdown_intact_iff (markdown : Text) (window : Window) :
    List.Forall₂ (Intact markdown) (chunkMarkdown markdown window)
        (packedChunks markdown window) ↔
      OpensNoFence window.overlapTokens (packedChunks markdown window) := by
  have hR : ∀ c d p : Chunk, c.text = d.text → (Intact markdown c p ↔ Intact markdown d p) := by
    intro c d p htext
    unfold Intact
    rw [htext]
  have hmap := forall₂_mapIdx hR (addOverlap window.overlapTokens (packedChunks markdown window))
    (packedChunks markdown window) (fun idx c => { c with chunkIndex := idx }) fun _ _ => rfl
  exact hmap.trans (addOverlap_intact_iff _ fun _ h => intact_packed h)

namespace Sample

/-- A code block fills a chunk, and prose follows. -/
def page : Text := [backtick, backtick, backtick] ++ "\nx\n".toList ++
  [backtick, backtick, backtick] ++ "\n\nprose".toList

def window : Window := { targetTokens := 1, maxTokens := 9, overlapTokens := 1 }

/-- The second chunk is scanned as code that stands nowhere in the page. -/
theorem chunkMarkdown_breaks_code :
    ∃ chunk ∈ chunkMarkdown page window, ∃ t ∈ codes chunk.text,
      ∀ s ∈ codes page, trim s ≠ trim t := by
  refine ⟨⟨[backtick, backtick, backtick] ++ "\n\nprose".toList, [], 1⟩, by decide,
    [backtick, backtick, backtick] ++ "\n\nprose".toList, by decide, by decide⟩

end Sample

end CrawlTrove.Corpus
