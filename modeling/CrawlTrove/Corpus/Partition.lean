import CrawlTrove.Corpus.Whitespace

/-!
# The chunks partition the document

Without overlap, the blocks of a page fall into consecutive runs, and a chunk is the join of
one run under the headings in force where its body begins.
-/

namespace CrawlTrove.Corpus

open Web (Text)

/-! ## Headings in force -/

namespace Block

def isHeading : Block → Bool
  | .heading _ _ => true
  | _ => false

/-- The block as it stands in a chunk. -/
def render : Block → Text
  | .heading title level => List.replicate level '#' ++ ' ' :: title
  | .code text => text
  | .para text => text

/-- A heading that ends the sections of this level. -/
def ends (level : ℕ) : Block → Bool
  | .heading _ level' => level' ≤ level
  | _ => false

end Block

/-- The headings whose section is still open behind the blocks: none of its level or above
has followed. -/
def inForce : List Block → List (ℕ × Text)
  | [] => []
  | .heading title level :: blocks =>
      if blocks.any (Block.ends level) then inForce blocks
      else (level, title) :: inForce blocks
  | _ :: blocks => inForce blocks

/-- The titles in force at the first block of a run that is no heading, or behind its last
heading. -/
def breadcrumb (before run : List Block) : List Text :=
  (inForce (before ++ run.takeWhile Block.isHeading)).map Prod.snd

def blankLine : Text := ['\n', '\n']

/-- The text of a run. -/
def textOf (run : List Block) : Text := trim (join blankLine (run.map Block.render))

/-- One chunk for every run. -/
def chunksOf (before : List Block) : List (List Block) → List Chunk
  | [] => []
  | run :: runs =>
      { text := textOf run, headingPath := breadcrumb before run } ::
        chunksOf (before ++ run) runs

theorem chunksOf_concat (before : List Block) (runs : List (List Block)) (run : List Block) :
    chunksOf before (runs ++ [run]) = chunksOf before runs ++
      [{ text := textOf run, headingPath := breadcrumb (before ++ runs.flatten) run }] := by
  induction runs generalizing before with
  | nil => simp [chunksOf]
  | cons first runs ih =>
      rw [List.cons_append, chunksOf, ih, chunksOf, List.flatten_cons, List.append_assoc,
        List.cons_append]

/-! ## The stack holds the headings in force -/

theorem mem_of_mem_inForce {blocks : List Block} {h : ℕ × Text} (hmem : h ∈ inForce blocks) :
    Block.heading h.2 h.1 ∈ blocks := by
  induction blocks with
  | nil => cases hmem
  | cons b blocks ih =>
      cases b with
      | heading title level =>
          rw [inForce] at hmem
          split at hmem
          · exact List.mem_cons_of_mem _ (ih hmem)
          · rcases List.mem_cons.mp hmem with rfl | hmem
            · exact List.mem_cons_self
            · exact List.mem_cons_of_mem _ (ih hmem)
      | code text => exact List.mem_cons_of_mem _ (ih hmem)
      | para text => exact List.mem_cons_of_mem _ (ih hmem)

/-- The levels grow towards the end of the stack. -/
theorem inForce_pairwise (blocks : List Block) :
    (inForce blocks).Pairwise fun a b => a.1 < b.1 := by
  induction blocks with
  | nil => exact List.Pairwise.nil
  | cons b blocks ih =>
      cases b with
      | heading title level =>
          rw [inForce]
          split
          · exact ih
          · rename_i hends
            refine List.pairwise_cons.mpr ⟨?_, ih⟩
            intro h hmem
            by_contra hle
            apply hends
            rw [List.any_eq_true]
            exact ⟨_, mem_of_mem_inForce hmem, by simpa [Block.ends] using hle⟩
      | code text => exact ih
      | para text => exact ih

theorem inForce_concat_heading (blocks : List Block) (title : Text) (level : ℕ) :
    inForce (blocks ++ [.heading title level]) =
      (inForce blocks).filter (fun h => h.1 < level) ++ [(level, title)] := by
  induction blocks with
  | nil => simp [inForce]
  | cons b blocks ih =>
      cases b with
      | heading first level' =>
          by_cases hends : blocks.any (Block.ends level') = true
          · simp only [List.cons_append, inForce, List.any_append, hends, Bool.true_or, if_true]
            exact ih
          · by_cases hlevel : level ≤ level'
            · simp [inForce, hends, Block.ends, hlevel, ih]
            · have hlt : level' < level := by omega
              simp [inForce, hends, Block.ends, hlevel, ih, hlt]
      | code text => exact ih
      | para text => exact ih

theorem inForce_concat {b : Block} (h : b.isHeading = false) (blocks : List Block) :
    inForce (blocks ++ [b]) = inForce blocks := by
  induction blocks with
  | nil => cases b <;> simp [inForce, Block.isHeading] at h ⊢
  | cons first blocks ih =>
      have hends : ∀ level, Block.ends level b = false := by
        intro level
        cases b with
        | heading title level => cases h
        | code text => rfl
        | para text => rfl
      cases first with
      | heading title level =>
          simp [inForce, hends, ih]
      | code text => exact ih
      | para text => exact ih

theorem rdropWhile_eq_filter {stack : List (ℕ × Text)}
    (h : stack.Pairwise fun a b => a.1 < b.1) (level : ℕ) :
    stack.rdropWhile (fun h : ℕ × Text => level ≤ h.1) = stack.filter fun h => h.1 < level := by
  induction stack using List.reverseRecOn with
  | nil => rfl
  | append_singleton stack top ih =>
      obtain ⟨hstack, -, htop⟩ := List.pairwise_append.mp h
      rw [List.filter_append]
      by_cases hle : level ≤ top.1
      · rw [List.rdropWhile_concat_pos _ _ _ (by simpa using hle), ih hstack]
        simp [hle]
      · rw [List.rdropWhile_concat_neg _ _ _ (by simpa using hle)]
        have hall : stack.filter (fun h => h.1 < level) = stack := by
          rw [List.filter_eq_self]
          intro a ha
          have hlt := htop a ha top (List.mem_singleton_self top)
          exact decide_eq_true (by omega)
        rw [hall]
        simp [not_le.mp hle]

/-- What a heading does to the stack. -/
theorem stack_heading (blocks : List Block) (title : Text) (level : ℕ) :
    (inForce blocks).rdropWhile (fun h : ℕ × Text => level ≤ h.1) ++ [(level, title)] =
      inForce (blocks ++ [.heading title level]) := by
  rw [rdropWhile_eq_filter (inForce_pairwise blocks), inForce_concat_heading]

/-! ## No block is blank -/

theorem ink_ne_nil_of_mem {c : Char} {s : Text} (hc : c ∈ s) (hspace : isSpace c = false) :
    ink s ≠ [] :=
  List.ne_nil_of_mem (List.mem_filter.mpr ⟨hc, by simp [hspace]⟩)

theorem ink_of_fenceOf {line : Text} {fence : Fence} (h : fenceOf line = some fence) :
    ink line ≠ [] := by
  unfold fenceOf at h
  split at h
  · cases h
  · rename_i c rest heq
    simp only at h
    split at h
    · rename_i hcond
      have hc : isSpace c = false := by
        rcases hcond.1 with rfl | rfl <;> decide
      have hmem : c ∈ line := by
        apply (List.dropWhile_suffix isSpace).mem
        rw [heq]
        exact List.mem_cons_self
      exact ink_ne_nil_of_mem hmem hc
    · cases h

theorem ink_of_not_isBlank {line : Text} (h : isBlank line = false) : ink line ≠ [] := by
  intro hink
  rw [← trim_eq_nil_iff] at hink
  simp [isBlank, hink] at h

theorem ink_render_heading {level : ℕ} (h : 1 ≤ level) (title : Text) :
    ink (Block.heading title level).render ≠ [] := by
  apply ink_ne_nil_of_mem (c := '#')
  · exact List.mem_append_left _ (List.mem_replicate.mpr ⟨by omega, rfl⟩)
  · decide

theorem level_of_headingOf {line title : Text} {level : ℕ}
    (h : headingOf line = some (level, title)) : 1 ≤ level := by
  simp only [headingOf] at h
  split at h
  · rename_i hcond
    cases h
    exact hcond.1
  · cases h

/-- The lines of the open block are not all blank. -/
def Open.Inky : Open → Prop
  | .outside => True
  | .inCode _ lines => ink (join ['\n'] lines) ≠ []
  | .inPara lines => ink (join ['\n'] lines) ≠ []

theorem ink_newline : ink ['\n'] = [] := by decide

theorem inky_concat {lines : List Text} (h : ink (join ['\n'] lines) ≠ []) (line : Text) :
    ink (join ['\n'] (lines ++ [line])) ≠ [] := by
  rw [ink_join ink_newline] at h ⊢
  rw [List.flatten_append, ink_append]
  exact List.append_ne_nil_of_left_ne_nil h _

theorem enter_inky (line : Text) :
    (∀ b ∈ (enter line).1, ink b.render ≠ []) ∧ (enter line).2.Inky := by
  unfold enter
  split
  · rename_i fence hfence
    refine ⟨by simp, ?_⟩
    show ink (join ['\n'] [line]) ≠ []
    rw [join_singleton]
    exact ink_of_fenceOf hfence
  · split
    · rename_i level title hheading
      refine ⟨?_, trivial⟩
      intro b hb
      rw [List.mem_singleton.mp hb]
      exact ink_render_heading (level_of_headingOf hheading) title
    · split
      · exact ⟨by simp, trivial⟩
      · rename_i hblank
        refine ⟨by simp, ?_⟩
        show ink (join ['\n'] [line]) ≠ []
        rw [join_singleton]
        exact ink_of_not_isBlank (by simpa using hblank)

theorem readLine_inky {current : Open} (h : current.Inky) (line : Text) :
    (∀ b ∈ (readLine line current).1, ink b.render ≠ []) ∧ (readLine line current).2.Inky := by
  cases current with
  | outside => exact enter_inky line
  | inCode fence lines =>
      rw [readLine]
      split
      · refine ⟨?_, trivial⟩
        intro b hb
        rw [List.mem_singleton.mp hb]
        exact inky_concat h line
      · exact ⟨by simp, inky_concat h line⟩
  | inPara lines =>
      rw [readLine]
      split
      · obtain ⟨hblocks, hnext⟩ := enter_inky line
        refine ⟨?_, hnext⟩
        intro b hb
        rcases List.mem_cons.mp hb with rfl | hb
        · exact h
        · exact hblocks b hb
      · exact ⟨by simp, inky_concat h line⟩

theorem blocksFrom_inky (lines : List Text) : ∀ current : Open, current.Inky →
    ∀ b ∈ blocksFrom current lines, ink b.render ≠ [] := by
  induction lines with
  | nil =>
      intro current h b hb
      cases current with
      | outside => cases hb
      | inCode fence lines =>
          rw [List.mem_singleton.mp hb]
          exact h
      | inPara lines =>
          rw [List.mem_singleton.mp hb]
          exact h
  | cons line lines ih =>
      intro current h b hb
      obtain ⟨hblocks, hnext⟩ := readLine_inky h line
      rcases List.mem_append.mp hb with hb | hb
      · exact hblocks b hb
      · exact ih _ hnext b hb

theorem ink_render {markdown : Text} {b : Block} (h : b ∈ iterBlocks markdown) :
    ink b.render ≠ [] :=
  blocksFrom_inky (splitLines markdown) .outside trivial b h

theorem textOf_ne_nil {run : List Block} (hne : run ≠ []) (h : ∀ b ∈ run, ink b.render ≠ []) :
    textOf run ≠ [] := by
  cases run with
  | nil => exact absurd rfl hne
  | cons b run =>
      have hb := h b List.mem_cons_self
      rw [textOf, ne_eq, trim_eq_nil_iff, ink_join (by decide)]
      rw [List.map_cons, List.flatten_cons, ink_append]
      exact List.append_ne_nil_of_left_ne_nil hb _

/-! ## The packer -/

/-- The closed runs and the one that is being packed. -/
structure Packed (s : Chunker) (runs : List (List Block)) (run : List Block) : Prop where
  chunks : s.chunks = chunksOf [] runs
  curBlocks : s.curBlocks = run.map Block.render
  curHasBody : s.curHasBody = run.any fun b => !b.isHeading
  curPath : run ≠ [] → s.curPath = breadcrumb runs.flatten run
  closed : ∀ r ∈ runs, r ≠ []
  inky : ∀ b ∈ run, ink b.render ≠ []

theorem Packed.empty : Packed {} [] [] where
  chunks := rfl
  curBlocks := rfl
  curHasBody := rfl
  curPath := fun h => absurd rfl h
  closed := by simp
  inky := by simp

theorem filter_render {run : List Block} (h : ∀ b ∈ run, ink b.render ≠ []) :
    (run.map Block.render).filter (· ≠ []) = run.map Block.render := by
  rw [List.filter_eq_self]
  intro text htext
  obtain ⟨b, hb, rfl⟩ := List.mem_map.mp htext
  have hink := h b hb
  simp only [ne_eq, decide_not, Bool.not_eq_true', decide_eq_false_iff_not]
  intro hnil
  rw [hnil] at hink
  exact hink rfl

/-- A flush closes the run, if there is one. -/
theorem Packed.flush {s : Chunker} {runs : List (List Block)} {run : List Block}
    (h : Packed s runs run) :
    ∃ runs', Packed s.flush runs' [] ∧ runs'.flatten = runs.flatten ++ run := by
  have htext : trim (join ['\n', '\n'] (s.curBlocks.filter (· ≠ []))) = textOf run := by
    rw [h.curBlocks, filter_render h.inky]
    rfl
  by_cases hrun : run = []
  · subst hrun
    have hnil : textOf [] = [] := by decide
    refine ⟨runs, ?_, by simp⟩
    exact {
      chunks := by simp only [Chunker.flush, htext, hnil, if_true, h.chunks]
      curBlocks := rfl
      curHasBody := rfl
      curPath := fun hne => absurd rfl hne
      closed := h.closed
      inky := by simp }
  · have hne := textOf_ne_nil hrun h.inky
    refine ⟨runs ++ [run], ?_, by simp⟩
    exact {
      chunks := by
        simp only [Chunker.flush, htext, if_neg hne, h.chunks, h.curPath hrun, chunksOf_concat,
          List.nil_append]
      curBlocks := rfl
      curHasBody := rfl
      curPath := fun hne => absurd rfl hne
      closed := by
        intro r hr
        rcases List.mem_append.mp hr with hr | hr
        · exact h.closed r hr
        · rw [List.mem_singleton.mp hr]
          exact hrun
      inky := by simp }

theorem takeWhile_concat_of_body {run : List Block} (b : Block)
    (h : (run.any fun b => !b.isHeading) = true) :
    (run ++ [b]).takeWhile Block.isHeading = run.takeWhile Block.isHeading := by
  induction run with
  | nil => cases h
  | cons first run ih =>
      cases hfirst : first.isHeading with
      | false => simp [hfirst]
      | true =>
          have hrest : (run.any fun b => !b.isHeading) = true := by simpa [hfirst] using h
          simp [hfirst, ih hrest]

theorem takeWhile_of_headings {run : List Block}
    (h : (run.any fun b => !b.isHeading) = false) :
    run.takeWhile Block.isHeading = run := by
  rw [List.takeWhile_eq_self_iff]
  intro b hb
  by_contra hbody
  have hany : (run.any fun b => !b.isHeading) = true :=
    List.any_eq_true.mpr ⟨b, hb, by simpa using hbody⟩
  rw [h] at hany
  cases hany

/-- The rest of a heading's step, behind the flush. -/
def Chunker.addHeading (s : Chunker) (text : Text) (level tokens : ℕ) : Chunker :=
  let s := if s.curHasBody then s else { s with curPath := s.pathNow }
  { s with
    curBlocks := s.curBlocks ++ [(Block.heading text level).render]
    curTokens := s.curTokens + tokens }

theorem addHeading_headingStack (s : Chunker) (title : Text) (level tokens : ℕ) :
    (s.addHeading title level tokens).headingStack = s.headingStack := by
  unfold Chunker.addHeading
  split <;> rfl

theorem Packed.addHeading {s : Chunker} {runs : List (List Block)} {run : List Block}
    (h : Packed s runs run) {title : Text} {level : ℕ}
    (hink : ink (Block.heading title level).render ≠ []) (tokens : ℕ)
    (hstack : s.headingStack = inForce (runs.flatten ++ run ++ [.heading title level])) :
    Packed (s.addHeading title level tokens) runs (run ++ [.heading title level]) where
  chunks := by
    unfold Chunker.addHeading
    split <;> exact h.chunks
  curBlocks := by
    unfold Chunker.addHeading
    split <;> simp [h.curBlocks]
  curHasBody := by
    unfold Chunker.addHeading
    split <;> simp [h.curHasBody, Block.isHeading]
  curPath := by
    intro _
    unfold Chunker.addHeading breadcrumb
    cases hbody : s.curHasBody with
    | true =>
        have hany := h.curHasBody.symm.trans hbody
        have hrun : run ≠ [] := by
          rintro rfl
          cases hany
        rw [takeWhile_concat_of_body _ hany]
        exact h.curPath hrun
    | false =>
        have hany := h.curHasBody.symm.trans hbody
        have hall : ((run ++ [Block.heading title level]).any fun b => !b.isHeading) = false := by
          rw [List.any_append, hany]
          rfl
        rw [takeWhile_of_headings hall, ← List.append_assoc, ← hstack]
        rfl
  closed := h.closed
  inky := by
    intro b hb
    rcases List.mem_append.mp hb with hb | hb
    · exact h.inky b hb
    · rw [List.mem_singleton.mp hb]
      exact hink

/-- The part of a step that adds a block of another kind. -/
def Chunker.addBody (s : Chunker) (text : Text) (tokens : ℕ) : Chunker :=
  let s := if s.curBlocks = [] then { s with curPath := s.pathNow } else s
  { s with
    curBlocks := s.curBlocks ++ [text]
    curTokens := s.curTokens + tokens
    curHasBody := true }

theorem Packed.addBody {s : Chunker} {runs : List (List Block)} {run : List Block}
    (h : Packed s runs run) {b : Block} (hb : b.isHeading = false) (hink : ink b.render ≠ [])
    (tokens : ℕ) (hstack : s.headingStack = inForce (runs.flatten ++ run)) :
    Packed (s.addBody b.render tokens) runs (run ++ [b]) where
  chunks := by
    unfold Chunker.addBody
    split <;> exact h.chunks
  curBlocks := by
    unfold Chunker.addBody
    split <;> simp [h.curBlocks]
  curHasBody := by
    unfold Chunker.addBody
    split <;> simp [hb]
  curPath := by
    intro _
    unfold Chunker.addBody breadcrumb
    by_cases hrun : run = []
    · subst hrun
      have hcur : s.curBlocks = [] := h.curBlocks
      simp only [if_pos hcur, List.nil_append, List.takeWhile_cons, hb]
      rw [List.append_nil] at hstack
      simp [Chunker.pathNow, hstack]
    · have hcur : s.curBlocks ≠ [] := by
        rw [h.curBlocks]
        simpa using hrun
      simp only [if_neg hcur, h.curPath hrun, breadcrumb]
      cases hany : run.any fun b => !b.isHeading with
      | true => rw [takeWhile_concat_of_body _ hany]
      | false =>
          have hall := takeWhile_of_headings hany
          rw [List.takeWhile_append, hall]
          simp [hb]
  closed := h.closed
  inky := by
    intro b' hb'
    rcases List.mem_append.mp hb' with hb' | hb'
    · exact h.inky b' hb'
    · rw [List.mem_singleton.mp hb']
      exact hink

/-- The blocks are closed in runs, but for those being packed. -/
def PackedTo (s : Chunker) (blocks : List Block) : Prop :=
  ∃ runs run, Packed s runs run ∧ runs.flatten ++ run = blocks

theorem PackedTo.flush {s : Chunker} {blocks : List Block} (h : PackedTo s blocks) :
    PackedTo s.flush blocks := by
  obtain ⟨runs, run, hpacked, hflatten⟩ := h
  obtain ⟨runs', hpacked', hflatten'⟩ := hpacked.flush
  refine ⟨runs', [], hpacked', ?_⟩
  rw [List.append_nil, hflatten', hflatten]

theorem PackedTo.flushIf {s : Chunker} {blocks : List Block} (h : PackedTo s blocks)
    (c : Prop) [Decidable c] : PackedTo (if c then s.flush else s) blocks := by
  split
  · exact h.flush
  · exact h

theorem headingStack_flushIf (s : Chunker) (c : Prop) [Decidable c] :
    (if c then s.flush else s).headingStack = s.headingStack := by
  split <;> rfl

theorem PackedTo.addBody {s : Chunker} {blocks : List Block} (h : PackedTo s blocks)
    (hstack : s.headingStack = inForce blocks) {b : Block} (hb : b.isHeading = false)
    (hink : ink b.render ≠ []) (tokens : ℕ) :
    PackedTo (s.addBody b.render tokens) (blocks ++ [b]) ∧
      (s.addBody b.render tokens).headingStack = inForce (blocks ++ [b]) := by
  obtain ⟨runs, run, hpacked, hflatten⟩ := h
  have hadded := hpacked.addBody hb hink tokens (by rw [hflatten]; exact hstack)
  refine ⟨⟨runs, run ++ [b], hadded, by rw [← List.append_assoc, hflatten]⟩, ?_⟩
  rw [inForce_concat hb]
  unfold Chunker.addBody
  split <;> exact hstack

/-- What holds of the packer when it has read the blocks. -/
structure Reached (s : Chunker) (blocks : List Block) : Prop where
  packed : PackedTo s blocks
  stack : s.headingStack = inForce blocks

theorem Reached.flushIf {s : Chunker} {blocks : List Block} (h : Reached s blocks)
    (c : Prop) [Decidable c] : Reached (if c then s.flush else s) blocks where
  packed := h.packed.flushIf c
  stack := (headingStack_flushIf s c).trans h.stack

theorem Reached.addBody {s : Chunker} {blocks : List Block} (h : Reached s blocks) {b : Block}
    (hb : b.isHeading = false) (hink : ink b.render ≠ []) (tokens : ℕ) :
    Reached (s.addBody b.render tokens) (blocks ++ [b]) := by
  obtain ⟨hpacked, hstack⟩ := h.packed.addBody h.stack hb hink tokens
  exact ⟨hpacked, hstack⟩

theorem Reached.body {s : Chunker} {blocks : List Block} (h : Reached s blocks)
    (window : Window) {b : Block} (hb : b.isHeading = false) (hink : ink b.render ≠ []) :
    Reached (s.body window b.render) (blocks ++ [b]) :=
  ((h.flushIf _).addBody hb hink (countTokens b.render)).flushIf _

theorem Reached.oversized {s : Chunker} {blocks : List Block} (h : Reached s blocks)
    {b : Block} (hb : b.isHeading = false) (hink : ink b.render ≠ []) :
    Reached (s.oversized b.render) (blocks ++ [b]) := by
  -- behind the flush nothing is being packed
  have hempty : Reached (if s.curBlocks = [] then s else s.flush) blocks ∧
      (if s.curBlocks = [] then s else s.flush).curBlocks = [] := by
    split
    · rename_i hnil
      exact ⟨h, hnil⟩
    · exact ⟨⟨h.packed.flush, h.stack⟩, rfl⟩
  obtain ⟨hreached, hnil⟩ := hempty
  have hadded := hreached.addBody hb hink 0
  simp only [Chunker.addBody, if_pos hnil, Nat.add_zero] at hadded
  exact ⟨hadded.packed.flush, hadded.stack⟩

/-- The part of a heading's step in front of the flush. -/
def Chunker.push (s : Chunker) (title : Text) (level : ℕ) : Chunker :=
  { s with
    headingStack :=
      s.headingStack.rdropWhile (fun h : ℕ × Text => level ≤ h.1) ++ [(level, title)] }

theorem Packed.push {s : Chunker} {runs : List (List Block)} {run : List Block}
    (h : Packed s runs run) (title : Text) (level : ℕ) : Packed (s.push title level) runs run :=
  ⟨h.chunks, h.curBlocks, h.curHasBody, h.curPath, h.closed, h.inky⟩

theorem Reached.heading {s : Chunker} {blocks : List Block} (h : Reached s blocks)
    (window : Window) {title : Text} {level : ℕ}
    (hink : ink (Block.heading title level).render ≠ []) :
    Reached (s.heading window title level) (blocks ++ [.heading title level]) := by
  obtain ⟨runs, run, hpacked, hflatten⟩ := h.packed
  -- the heading is on the stack before the run in front of it is closed
  have hpushed : PackedTo (s.push title level) blocks :=
    ⟨runs, run, hpacked.push title level, hflatten⟩
  have hstack : (s.push title level).headingStack = inForce (blocks ++ [.heading title level]) := by
    rw [← stack_heading, ← h.stack]
    rfl
  obtain ⟨runs', run', hpacked', hflatten'⟩ :=
    hpushed.flushIf (window.targetTokens ≤ s.curTokens)
  have hstack' := (headingStack_flushIf (s.push title level)
    (window.targetTokens ≤ s.curTokens)).trans hstack
  have hadded := hpacked'.addHeading hink (countTokens title) (by rw [hflatten']; exact hstack')
  refine ⟨⟨runs', _, hadded, by rw [← List.append_assoc, hflatten']⟩, ?_⟩
  show (Chunker.addHeading (if window.targetTokens ≤ s.curTokens then (s.push title level).flush
    else s.push title level) title level (countTokens title)).headingStack = _
  rw [addHeading_headingStack, hstack']

theorem Reached.addBlock {s : Chunker} {blocks : List Block} (h : Reached s blocks)
    (window : Window) {b : Block} (hink : ink b.render ≠ []) :
    Reached (s.addBlock window b) (blocks ++ [b]) := by
  cases b with
  | heading title level => exact h.heading window hink
  | code text =>
      rw [Chunker.addBlock]
      split
      · exact h.oversized (b := .code text) rfl hink
      · exact h.body window (b := .code text) rfl hink
  | para text => exact h.body window (b := .para text) rfl hink

theorem Reached.foldl (window : Window) (more : List Block) : ∀ (s : Chunker)
    (blocks : List Block), Reached s blocks → (∀ b ∈ more, ink b.render ≠ []) →
      Reached (more.foldl (Chunker.addBlock window) s) (blocks ++ more) := by
  induction more with
  | nil =>
      intro s blocks h _
      rw [List.append_nil]
      exact h
  | cons b more ih =>
      intro s blocks h hink
      have hadded := h.addBlock window (hink b List.mem_cons_self)
      have hrest := ih _ _ hadded fun b' hb' => hink b' (List.mem_cons_of_mem b hb')
      rw [List.append_assoc] at hrest
      exact hrest

theorem reached_empty : Reached {} [] := ⟨⟨[], [], Packed.empty, rfl⟩, rfl⟩

/-- The chunks before any overlap. -/
theorem chunks_partition (markdown : Text) (window : Window) :
    ∃ runs : List (List Block), runs.flatten = iterBlocks markdown ∧ (∀ run ∈ runs, run ≠ []) ∧
      ((iterBlocks markdown).foldl (Chunker.addBlock window) {}).flush.chunks =
        chunksOf [] runs := by
  have hreached := Reached.foldl window (iterBlocks markdown) {} [] reached_empty
    fun b hb => ink_render hb
  obtain ⟨runs, run, hpacked, hflatten⟩ := hreached.packed
  obtain ⟨runs', hpacked', hflatten'⟩ := hpacked.flush
  exact ⟨runs', by rw [hflatten', hflatten]; rfl, hpacked'.closed, hpacked'.chunks⟩

/-! ## Chunks without overlap -/

theorem addOverlap_zero (chunks : List Chunk) : addOverlap 0 chunks = chunks := by
  cases chunks with
  | nil => rfl
  | cons chunk chunks => rfl

theorem exists_textOf {runs : List (List Block)} {run : List Block} (h : run ∈ runs)
    (before : List Block) : ∃ chunk ∈ chunksOf before runs, chunk.text = textOf run := by
  induction runs generalizing before with
  | nil => cases h
  | cons first runs ih =>
      rcases List.mem_cons.mp h with rfl | h
      · exact ⟨_, List.mem_cons_self, rfl⟩
      · obtain ⟨chunk, hchunk, htext⟩ := ih h (before ++ first)
        exact ⟨chunk, List.mem_cons_of_mem _ hchunk, htext⟩

theorem exists_run {runs : List (List Block)} {chunk : Chunk} {before : List Block}
    (h : chunk ∈ chunksOf before runs) : ∃ run ∈ runs, chunk.text = textOf run := by
  induction runs generalizing before with
  | nil => cases h
  | cons first runs ih =>
      rcases List.mem_cons.mp h with rfl | h
      · exact ⟨first, List.mem_cons_self, rfl⟩
      · obtain ⟨run, hrun, htext⟩ := ih h
        exact ⟨run, List.mem_cons_of_mem first hrun, htext⟩

theorem exists_mapIdx {chunks : List Chunk} {chunk : Chunk} (h : chunk ∈ chunks) :
    ∃ c ∈ chunks.mapIdx fun idx c => { c with chunkIndex := idx }, c.text = chunk.text := by
  obtain ⟨i, hi, rfl⟩ := List.mem_iff_getElem.mp h
  exact ⟨{ chunks[i] with chunkIndex := i }, List.mem_mapIdx.mpr ⟨i, hi, rfl⟩, rfl⟩

/-- The blocks of the page fall into consecutive runs, none of them empty. A chunk is the
stripped blank-line join of a run, under the headings in force at its first body block or
behind its last heading, and every block lies whole in a chunk. -/
theorem chunkMarkdown_partitions (markdown : Text) (targetTokens maxTokens : ℕ) :
    ∃ runs : List (List Block), runs.flatten = iterBlocks markdown ∧ (∀ run ∈ runs, run ≠ []) ∧
      chunkMarkdown markdown { targetTokens, maxTokens, overlapTokens := 0 } =
        (chunksOf [] runs).mapIdx (fun idx c => { c with chunkIndex := idx }) ∧
      ∀ b ∈ iterBlocks markdown,
        ∃ chunk ∈ chunkMarkdown markdown { targetTokens, maxTokens, overlapTokens := 0 },
          trim b.render <:+: chunk.text := by
  obtain ⟨runs, hflatten, hne, hchunks⟩ :=
    chunks_partition markdown { targetTokens, maxTokens, overlapTokens := 0 }
  have hwhole : chunkMarkdown markdown { targetTokens, maxTokens, overlapTokens := 0 } =
      (chunksOf [] runs).mapIdx (fun idx c => { c with chunkIndex := idx }) := by
    simp only [chunkMarkdown, hchunks, addOverlap_zero]
  refine ⟨runs, hflatten, hne, hwhole, ?_⟩
  intro b hb
  rw [← hflatten] at hb
  obtain ⟨run, hrun, hbrun⟩ := List.mem_flatten.mp hb
  obtain ⟨chunk, hchunk, htext⟩ := exists_textOf hrun []
  obtain ⟨c, hc, hctext⟩ := exists_mapIdx hchunk
  refine ⟨c, by rw [hwhole]; exact hc, ?_⟩
  rw [hctext, htext]
  exact trim_infix_trim (infix_join (List.mem_map_of_mem hbrun))

end CrawlTrove.Corpus
