import CrawlTrove.Corpus.Partition

/-!
# Scans

The lines of a text and the code blocks among them. Headings and paragraphs do not matter for
these, and neither does whitespace around the text.
-/

namespace CrawlTrove.Corpus

open Web (Text)

/-! ## Lines -/

/-- A line as `splitLines` yields it. -/
def Unbroken (line : Text) : Prop := ∀ c ∈ line, isLineBreak c = false

theorem isSpace_of_isLineBreak {c : Char} (h : isLineBreak c = true) : isSpace c = true := by
  simp only [isLineBreak, isSpace, Bool.or_eq_true, Bool.and_eq_true, decide_eq_true_eq] at h ⊢
  omega

/-- A character that does not begin a line end of two. -/
theorem splitLinesFrom_single {c : Char} {s : Text} (h : ∀ t, c = '\r' → s = '\n' :: t → False)
    (line : Text) : splitLinesFrom line (c :: s) =
      if isLineBreak c then line :: splitLinesFrom [] s else splitLinesFrom (line ++ [c]) s := by
  rw [splitLinesFrom]
  exact h

theorem splitLinesFrom_cons {c : Char} (hc : isLineBreak c = false) (line s : Text) :
    splitLinesFrom line (c :: s) = splitLinesFrom (line ++ [c]) s := by
  rw [splitLinesFrom_single, if_neg (by simp [hc])]
  rintro t rfl -
  revert hc
  decide

theorem splitLinesFrom_newline (line s : Text) :
    splitLinesFrom line ('\n' :: s) = line :: splitLinesFrom [] s := by
  rw [splitLinesFrom_single, if_pos (by decide)]
  intro t h
  exact absurd h (by decide)

theorem splitLinesFrom_append {line : Text} (h : Unbroken line) (start s : Text) :
    splitLinesFrom start (line ++ '\n' :: s) = (start ++ line) :: splitLines s := by
  induction line generalizing start with
  | nil =>
      rw [List.nil_append, splitLinesFrom_newline, List.append_nil]
      rfl
  | cons c line ih =>
      rw [List.cons_append, splitLinesFrom_cons (h c List.mem_cons_self),
        ih fun d hd => h d (List.mem_cons_of_mem c hd)]
      simp

theorem splitLines_append {line : Text} (h : Unbroken line) (s : Text) :
    splitLines (line ++ '\n' :: s) = line :: splitLines s :=
  splitLinesFrom_append h [] s

/-- Lines that were joined, with a line feed behind them. -/
theorem splitLines_join {lines : List Text} (hne : lines ≠ []) (h : ∀ l ∈ lines, Unbroken l)
    (s : Text) : splitLines (join ['\n'] lines ++ '\n' :: s) = lines ++ splitLines s := by
  induction lines with
  | nil => exact absurd rfl hne
  | cons line lines ih =>
      have hline := h line List.mem_cons_self
      cases lines with
      | nil => rw [join_singleton, splitLines_append hline, List.singleton_append]
      | cons next lines =>
          have hrest := ih (by simp) fun l hl => h l (List.mem_cons_of_mem line hl)
          rw [join_cons _ _ (List.cons_ne_nil next lines), List.append_assoc, List.append_assoc,
            List.singleton_append, splitLines_append hline, hrest]
          rfl

theorem unbroken_of_mem_splitLinesFrom {s line : Text} :
    ∀ start : Text, Unbroken start → line ∈ splitLinesFrom start s → Unbroken line := by
  intro start
  induction start, s using splitLinesFrom.induct with
  | case1 =>
      intro _ hmem
      simp [splitLinesFrom] at hmem
  | case2 start hne =>
      intro hstart hmem
      simp only [splitLinesFrom, if_neg hne, List.mem_singleton] at hmem
      rw [hmem]
      exact hstart
  | case3 start s ih =>
      intro hstart hmem
      simp only [splitLinesFrom, List.mem_cons] at hmem
      rcases hmem with rfl | hmem
      · exact hstart
      · exact ih (by simp [Unbroken]) hmem
  | case4 start c s hcrlf hc ih =>
      intro hstart hmem
      rw [splitLinesFrom_single hcrlf, if_pos hc] at hmem
      rcases List.mem_cons.mp hmem with rfl | hmem
      · exact hstart
      · exact ih (by simp [Unbroken]) hmem
  | case5 start c s hcrlf hc ih =>
      intro hstart hmem
      rw [splitLinesFrom_single hcrlf, if_neg hc] at hmem
      apply ih _ hmem
      intro d hd
      rcases List.mem_append.mp hd with hd | hd
      · exact hstart d hd
      · rw [List.mem_singleton.mp hd]
        simpa using hc

theorem unbroken_of_mem {s line : Text} (h : line ∈ splitLines s) : Unbroken line :=
  unbroken_of_mem_splitLinesFrom [] (by simp [Unbroken]) h

/-! ## Code blocks -/

def Block.codes : Block → List Text
  | .code text => [text]
  | _ => []

/-- The texts of the code blocks that a scan yields. -/
def codes (s : Text) : List Text := (iterBlocks s).flatMap Block.codes

/-- Whether a scan is inside of a fence. -/
def Open.fence? : Open → Option (Fence × List Text)
  | .inCode fence lines => some (fence, lines)
  | _ => none

/-- What a line does to the code blocks. -/
def readCode (line : Text) : Option (Fence × List Text) → List Text × Option (Fence × List Text)
  | none => ([], (fenceOf line).map fun fence => (fence, [line]))
  | some (fence, lines) =>
      if fence.closedBy line then ([join ['\n'] (lines ++ [line])], none)
      else ([], some (fence, lines ++ [line]))

def finishCode : Option (Fence × List Text) → List Text
  | none => []
  | some (_, lines) => [join ['\n'] lines]

/-- The code blocks alone; headings and paragraphs do not matter for them. -/
def codesFrom (current : Option (Fence × List Text)) : List Text → List Text
  | [] => finishCode current
  | line :: lines =>
      (readCode line current).1 ++ codesFrom (readCode line current).2 lines

theorem enter_code (line : Text) :
    ((enter line).1.flatMap Block.codes, (enter line).2.fence?) = readCode line none := by
  unfold enter readCode
  split
  · rename_i fence hfence
    rw [hfence]
    rfl
  · rename_i hfence
    rw [hfence]
    split
    · rfl
    · split <;> rfl

theorem readLine_code (line : Text) (current : Open) :
    ((readLine line current).1.flatMap Block.codes, (readLine line current).2.fence?) =
      readCode line current.fence? := by
  cases current with
  | outside => exact enter_code line
  | inCode fence lines =>
      simp only [readLine, Open.fence?, readCode]
      split <;> rfl
  | inPara lines =>
      rw [readLine]
      split
      · exact enter_code line
      · rename_i h
        have hnone : fenceOf line = none := by
          rw [← Option.not_isSome_iff_eq_none]
          exact fun hsome => h (Or.inr (Or.inr hsome))
        simp [Open.fence?, readCode, hnone]

theorem codes_blocksFrom (lines : List Text) : ∀ current : Open,
    (blocksFrom current lines).flatMap Block.codes = codesFrom current.fence? lines := by
  induction lines with
  | nil =>
      intro current
      cases current <;> rfl
  | cons line lines ih =>
      intro current
      have hblocks : (readLine line current).1.flatMap Block.codes =
          (readCode line current.fence?).1 := congrArg Prod.fst (readLine_code line current)
      have hnext : (readLine line current).2.fence? = (readCode line current.fence?).2 :=
        congrArg Prod.snd (readLine_code line current)
      rw [codesFrom, ← hblocks, ← hnext, ← ih]
      exact List.flatMap_append

theorem codes_eq (s : Text) : codes s = codesFrom none (splitLines s) :=
  codes_blocksFrom (splitLines s) .outside

/-! ## Stripping does not change the code blocks -/

/-- The same texts up to whitespace around them. -/
def Alike (a b : List Text) : Prop := a.map trim = b.map trim

theorem Alike.append {a b a' b' : List Text} (h : Alike a b) (h' : Alike a' b') :
    Alike (a ++ a') (b ++ b') := by
  unfold Alike at h h' ⊢
  rw [List.map_append, List.map_append, h, h']

theorem alike_singleton {s t : Text} (h : trim s = trim t) : Alike [s] [t] := by
  simp [Alike, h]

theorem codesFrom_alike {fence : Fence} (lines : List Text) : ∀ {front front' : List Text},
    (∀ more, trim (join ['\n'] (front ++ more)) = trim (join ['\n'] (front' ++ more))) →
      Alike (codesFrom (some (fence, front)) lines) (codesFrom (some (fence, front')) lines) := by
  induction lines with
  | nil =>
      intro front front' h
      have hnil := h []
      rw [List.append_nil, List.append_nil] at hnil
      exact alike_singleton hnil
  | cons line lines ih =>
      intro front front' h
      simp only [codesFrom, readCode]
      split
      · exact (alike_singleton (h [line])).append rfl
      · apply ih
        intro more
        rw [List.append_assoc, List.append_assoc]
        exact h ([line] ++ more)

theorem join_cons_char (c : Char) (line : Text) (more : List Text) :
    join ['\n'] ((c :: line) :: more) = c :: join ['\n'] (line :: more) := by
  cases more with
  | nil => simp
  | cons next more =>
      rw [join_cons _ _ (List.cons_ne_nil next more), join_cons _ _ (List.cons_ne_nil next more)]
      rfl

theorem codesFrom_cons_char {c : Char} (hc : isSpace c = true) (line : Text) (lines : List Text) :
    Alike (codesFrom none ((c :: line) :: lines)) (codesFrom none (line :: lines)) := by
  have hfence : fenceOf (c :: line) = fenceOf line := by
    unfold fenceOf
    rw [List.dropWhile_cons_of_pos hc]
  simp only [codesFrom, readCode, hfence, List.nil_append]
  cases fenceOf line with
  | none => rfl
  | some fence =>
      apply codesFrom_alike
      intro more
      rw [List.singleton_append, List.singleton_append, join_cons_char, trim_cons hc]

theorem takeWhile_concat_of_ne {c d : Char} (h : c ≠ d) (s : Text) :
    (s ++ [c]).takeWhile (· = d) = s.takeWhile (· = d) := by
  induction s with
  | nil => simp [h]
  | cons e s ih =>
      rw [List.cons_append, List.takeWhile_cons, List.takeWhile_cons, ih]

theorem fenceOf_concat {c : Char} (hc : isSpace c = true) (line : Text) :
    fenceOf (line ++ [c]) = fenceOf line := by
  induction line with
  | nil =>
      unfold fenceOf
      rw [List.nil_append, List.dropWhile_cons_of_pos hc]
  | cons d line ih =>
      unfold fenceOf at ih ⊢
      cases hd : isSpace d with
      | true =>
          rw [List.cons_append, List.dropWhile_cons_of_pos hd, List.dropWhile_cons_of_pos hd]
          exact ih
      | false =>
          have hne : c ≠ d := by
            rintro rfl
            rw [hc] at hd
            cases hd
          rw [List.cons_append, List.dropWhile_cons_of_neg (by simp [hd]),
            List.dropWhile_cons_of_neg (by simp [hd])]
          simp only [takeWhile_concat_of_ne hne]

theorem join_concat_char (c : Char) (line : Text) (lines : List Text) :
    join ['\n'] (lines ++ [line ++ [c]]) = join ['\n'] (lines ++ [line]) ++ [c] := by
  by_cases hne : lines = []
  · subst hne
    simp
  · rw [join_concat _ _ hne, join_concat _ _ hne, List.append_assoc, List.append_assoc,
      List.append_assoc]

/-- A line at the end that is longer by whitespace. -/
theorem codesFrom_concat_char {c : Char} (hc : isSpace c = true) (line : Text)
    (lines : List Text) : ∀ current,
      Alike (codesFrom current (lines ++ [line ++ [c]])) (codesFrom current (lines ++ [line])) := by
  induction lines with
  | nil =>
      intro current
      cases current with
      | none =>
          simp only [List.nil_append, codesFrom, readCode, fenceOf_concat hc]
          cases fenceOf line with
          | none => rfl
          | some fence =>
              apply alike_singleton
              rw [join_singleton, join_singleton, trim_concat hc]
      | some state =>
          obtain ⟨fence, front⟩ := state
          have hline : trim (join ['\n'] (front ++ [line ++ [c]])) =
              trim (join ['\n'] (front ++ [line])) := by
            rw [join_concat_char, trim_concat hc]
          -- closed by the line or open at the end, the block has the same lines
          have hall : ∀ l : Text, codesFrom (some (fence, front)) [l] =
              [join ['\n'] (front ++ [l])] := by
            intro l
            simp only [codesFrom, readCode]
            split <;> rfl
          rw [List.nil_append, List.nil_append, hall, hall]
          exact alike_singleton hline
  | cons first lines ih =>
      intro current
      exact Alike.append rfl (ih _)

/-- A blank line at the end. -/
theorem codesFrom_concat_blank {line : Text} (hline : ∀ c ∈ line, isSpace c = true)
    (lines : List Text) : ∀ current,
      Alike (codesFrom current (lines ++ [line])) (codesFrom current lines) := by
  induction lines with
  | nil =>
      intro current
      cases current with
      | none =>
          have hfence : fenceOf line = none := by
            unfold fenceOf
            rw [List.dropWhile_eq_nil_iff.mpr hline]
          simp only [List.nil_append, codesFrom, readCode, hfence]
          rfl
      | some state =>
          obtain ⟨fence, front⟩ := state
          have hblank : trim (join ['\n'] (front ++ [line])) = trim (join ['\n'] front) := by
            by_cases hne : front = []
            · subst hne
              rw [List.nil_append, join_singleton, ← List.nil_append line, trim_append hline]
              rfl
            · rw [join_concat _ _ hne, trim_append hline, trim_concat (by decide)]
          simp only [List.nil_append, codesFrom, readCode]
          split
          · exact alike_singleton hblank
          · exact alike_singleton hblank
  | cons first lines ih =>
      intro current
      exact Alike.append rfl (ih _)

theorem isSpace_of_mem_singleton {c : Char} (hc : isSpace c = true) :
    ∀ d ∈ [c], isSpace d = true := by
  intro d hd
  rw [List.mem_singleton.mp hd]
  exact hc

/-- What a character of whitespace does to the lines of a text it ends. -/
inductive Padded (c : Char) : List Text → List Text → Prop
  | same (lines : List Text) : Padded c lines lines
  | blank {line : Text} (hline : ∀ d ∈ line, isSpace d = true) (lines : List Text) :
      Padded c lines (lines ++ [line])
  | longer (lines : List Text) (line : Text) : Padded c (lines ++ [line]) (lines ++ [line ++ [c]])

theorem Padded.cons {c : Char} {lines lines' : List Text} (h : Padded c lines lines')
    (line : Text) : Padded c (line :: lines) (line :: lines') := by
  cases h with
  | same => exact Padded.same _
  | blank hline => exact Padded.blank hline (line :: lines)
  | longer lines last => exact Padded.longer (line :: lines) last

theorem splitLinesFrom_concat {c : Char} (hc : isSpace c = true) (start s : Text) :
    Padded c (splitLinesFrom start s) (splitLinesFrom start (s ++ [c])) := by
  have hsingle : ∀ line : Text, splitLinesFrom line [c] =
      if isLineBreak c then [line] else [line ++ [c]] := by
    intro line
    rw [splitLinesFrom_single (by simp)]
    split <;> simp [splitLinesFrom]
  induction start, s using splitLinesFrom.induct with
  | case1 =>
      rw [List.nil_append, hsingle]
      split
      · exact Padded.blank (by simp) []
      · exact Padded.blank (isSpace_of_mem_singleton hc) []
  | case2 start hne =>
      rw [List.nil_append, hsingle, splitLinesFrom, if_neg hne]
      split
      · exact Padded.same _
      · exact Padded.longer [] start
  | case3 start s ih =>
      rw [List.cons_append, List.cons_append, splitLinesFrom, splitLinesFrom]
      exact ih.cons start
  | case4 start d s hcrlf hd ih =>
      by_cases hend : d = '\r' ∧ s = [] ∧ c = '\n'
      · obtain ⟨rfl, rfl, rfl⟩ := hend
        exact Padded.same [start]
      · have hcrlf' : ∀ t, d = '\r' → s ++ [c] = '\n' :: t → False := by
          intro t hr ht
          cases s with
          | nil => exact hend ⟨hr, rfl, (List.cons.inj ht).1⟩
          | cons e s => exact hcrlf s hr (by rw [(List.cons.inj ht).1])
        rw [List.cons_append, splitLinesFrom_single hcrlf, splitLinesFrom_single hcrlf', if_pos hd,
          if_pos hd]
        exact ih.cons start
  | case5 start d s hcrlf hd ih =>
      have hd' : isLineBreak d = false := by simpa using hd
      rw [List.cons_append, splitLinesFrom_cons hd', splitLinesFrom_cons hd']
      exact ih

theorem codes_concat {c : Char} (hc : isSpace c = true) (s : Text) :
    Alike (codes (s ++ [c])) (codes s) := by
  rw [codes_eq, codes_eq]
  have hlines : Padded c (splitLines s) (splitLines (s ++ [c])) := splitLinesFrom_concat hc [] s
  generalize splitLines s = lines at hlines ⊢
  generalize splitLines (s ++ [c]) = lines' at hlines ⊢
  cases hlines with
  | same => rfl
  | blank hline => exact codesFrom_concat_blank hline lines none
  | longer lines last => exact codesFrom_concat_char hc last lines none

theorem splitLinesFrom_cons_start (c : Char) (start s : Text) (h : start ≠ [] ∨ s ≠ []) :
    ∃ line lines, splitLinesFrom start s = line :: lines ∧
      splitLinesFrom (c :: start) s = (c :: line) :: lines := by
  induction start, s using splitLinesFrom.induct with
  | case1 => simp at h
  | case2 start hne => exact ⟨start, [], by simp [splitLinesFrom, hne], by simp [splitLinesFrom]⟩
  | case3 start s ih => exact ⟨start, splitLinesFrom [] s, rfl, rfl⟩
  | case4 start d s hcrlf hd ih =>
      refine ⟨start, splitLinesFrom [] s, ?_, ?_⟩
      · rw [splitLinesFrom_single hcrlf, if_pos hd]
      · rw [splitLinesFrom_single hcrlf, if_pos hd]
  | case5 start d s hcrlf hd ih =>
      have hd' : isLineBreak d = false := by simpa using hd
      rw [splitLinesFrom_cons hd', splitLinesFrom_cons hd']
      exact ih (Or.inl (by simp))

theorem codesFrom_nil_line (lines : List Text) :
    codesFrom none ([] :: lines) = codesFrom none lines := rfl

theorem codes_cons {c : Char} (hc : isSpace c = true) (s : Text) :
    Alike (codes (c :: s)) (codes s) := by
  rw [codes_eq, codes_eq]
  by_cases hcrlf : ∃ t, c = '\r' ∧ s = '\n' :: t
  · obtain ⟨t, rfl, rfl⟩ := hcrlf
    have hlines : splitLines ('\r' :: '\n' :: t) = splitLines ('\n' :: t) := by
      rw [splitLines, splitLines, splitLinesFrom_newline]
      rfl
    rw [hlines]
    rfl
  · have hsingle : ∀ t, c = '\r' → s = '\n' :: t → False := fun t hr ht => hcrlf ⟨t, hr, ht⟩
    rw [splitLines, splitLinesFrom_single hsingle]
    split
    · rw [codesFrom_nil_line]
      rfl
    · by_cases hs : s = []
      · subst hs
        exact codesFrom_concat_blank (isSpace_of_mem_singleton hc) [] none
      · obtain ⟨line, lines, hlines, hlines'⟩ := splitLinesFrom_cons_start c [] s (Or.inr hs)
        rw [List.nil_append, hlines', splitLines, hlines]
        exact codesFrom_cons_char hc line lines

theorem codes_dropWhile (s : Text) : Alike (codes (s.dropWhile isSpace)) (codes s) := by
  induction s with
  | nil => rfl
  | cons c s ih =>
      cases hc : isSpace c with
      | true =>
          rw [List.dropWhile_cons_of_pos hc]
          exact ih.trans (codes_cons hc s).symm
      | false =>
          rw [List.dropWhile_cons_of_neg (by simp [hc])]
          rfl

theorem codes_rdropWhile (s : Text) : Alike (codes (s.rdropWhile isSpace)) (codes s) := by
  induction s using List.reverseRecOn with
  | nil => rfl
  | append_singleton s c ih =>
      cases hc : isSpace c with
      | true =>
          rw [List.rdropWhile_concat_pos isSpace s c hc]
          exact ih.trans (codes_concat hc s).symm
      | false =>
          rw [List.rdropWhile_concat_neg isSpace s c (by simp [hc])]
          rfl

/-- A stripped text has the same code blocks, up to whitespace around them. -/
theorem codes_trim (s : Text) : Alike (codes (trim s)) (codes s) :=
  (codes_rdropWhile (s.dropWhile isSpace)).trans (codes_dropWhile s)

end CrawlTrove.Corpus
