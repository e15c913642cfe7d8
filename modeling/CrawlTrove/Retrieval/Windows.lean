import CrawlTrove.Corpus.Whitespace

/-!
# Windows over paragraphs

`chunk_text` (`app/vecindex.py`): the paragraphs of a text are packed into chunks of so
many characters, and a paragraph longer than a chunk is cut into windows that overlap.
-/

namespace CrawlTrove.Retrieval

open Web (Text)
open Corpus

/-! ## Paragraphs -/

/-- A line feed follows behind whitespace only. -/
def breakAhead (s : Text) : Bool := decide ('\n' ∈ s.takeWhile isSpace)

/-- The parts of a text, with the characters already read of the first of them. Inside of a
separator nothing is kept; it ends with the last line feed of its whitespace. -/
def splitBlankFrom (inGap : Bool) (part : Text) : Text → List Text
  | [] => [part]
  | c :: s =>
      if inGap then splitBlankFrom (breakAhead s) [] s
      else if c = '\n' ∧ breakAhead s then part :: splitBlankFrom true [] s
      else splitBlankFrom false (part ++ [c]) s

/-- `re.split` at a line feed, any whitespace and a line feed. -/
def splitBlank (s : Text) : List Text := splitBlankFrom false [] s

/-- The paragraphs of a text, stripped. -/
def paragraphs (text : Text) : List Text :=
  ((splitBlank (trim text)).map trim).filter (· ≠ [])

/-! ## The chunker -/

/-- The keyword arguments of `chunk_text`. -/
structure Limits where
  maxChars : ℕ := 1600
  overlap : ℕ := 160
  maxChunks : ℕ := 200

namespace Limits

def step (limits : Limits) : ℕ := max 1 (limits.maxChars - limits.overlap)

/-- `range(0, len(p), step)`. -/
def starts (limits : Limits) (p : Text) : List ℕ :=
  List.range' 0 ((p.length + limits.step - 1) / limits.step) limits.step

/-- The windows of a long paragraph; the chunks are returned when they are enough. -/
def appendWindows (limits : Limits) (p : Text) :
    List ℕ → List Text → Except (List Text) (List Text)
  | [], chunks => .ok chunks
  | i :: starts, chunks =>
      let chunks := chunks ++ [(p.drop i).take limits.maxChars]
      if limits.maxChunks ≤ chunks.length then .error (chunks.take limits.maxChunks)
      else limits.appendWindows p starts chunks

/-- The chunks with the current one. -/
def flushed (chunks : List Text) (cur : Text) : List Text :=
  if cur = [] then chunks else chunks ++ [cur]

def blankLine : Text := ['\n', '\n']

/-- The loop over the paragraphs, with the chunks made and the current one. -/
def pack (limits : Limits) (chunks : List Text) (cur : Text) : List Text → List Text
  | [] => (flushed chunks cur).take limits.maxChunks
  | p :: paras =>
      let p := trim p
      if p = [] then limits.pack chunks cur paras
      else if limits.maxChars < p.length then
        match limits.appendWindows p (limits.starts p) (flushed chunks cur) with
        | .error returned => returned
        | .ok chunks => limits.pack chunks [] paras
      else
        let full := cur ≠ [] ∧ limits.maxChars < cur.length + p.length + 2
        let chunks := if full then chunks ++ [cur] else chunks
        let cur := if full then p else if cur = [] then p else cur ++ blankLine ++ p
        if limits.maxChunks ≤ chunks.length then chunks.take limits.maxChunks
        else limits.pack chunks cur paras

/-- `chunk_text`. -/
def chunkText (limits : Limits) (text : Text) : List Text :=
  let text := trim text
  if text = [] then [] else limits.pack [] [] (splitBlank text)

end Limits

/-! ## What covers a text -/

/-- Windows of a paragraph from a position to its end: each begins inside of the one before
it or right behind it. -/
inductive Windows (size : ℕ) (p : Text) : ℕ → List Text → Prop
  | last {i : ℕ} (hi : i < p.length) (hend : p.length ≤ i + size) :
      Windows size p i [(p.drop i).take size]
  | next {i j : ℕ} {ws : List Text} (hij : i < j) (hsize : j ≤ i + size)
      (hws : Windows size p j ws) : Windows size p i ((p.drop i).take size :: ws)

/-- The chunks are consecutive paragraphs joined, or windows of one long paragraph, in the
order of the paragraphs and with none left out. -/
inductive Cover (maxChars : ℕ) : List Text → List Text → Prop
  | done : Cover maxChars [] []
  | packed {paras rest chunks : List Text} (hne : paras ≠ [])
      (hsize : (join Limits.blankLine paras).length ≤ maxChars)
      (hrest : Cover maxChars rest chunks) :
      Cover maxChars (paras ++ rest) (join Limits.blankLine paras :: chunks)
  | windows {p : Text} {ws rest chunks : List Text} (hlong : maxChars < p.length)
      (hws : Windows maxChars p 0 ws) (hrest : Cover maxChars rest chunks) :
      Cover maxChars (p :: rest) (ws ++ chunks)

/-- What is left of the chunks when each keeps so many characters of its front. -/
def fresh (keeps : List ℕ) (chunks : List Text) : List Text :=
  List.zipWith (fun n (c : Text) => c.take n) keeps chunks

/-- Each window without what the next one repeats: the paragraph, from the position on. -/
theorem Windows.flatten_fresh {size i : ℕ} {p : Text} {ws : List Text} (h : Windows size p i ws) :
    ∃ keeps : List ℕ, keeps.length = ws.length ∧
      (fresh keeps ws).flatten = p.drop i := by
  induction h with
  | @last i hi hend =>
      refine ⟨[size], rfl, ?_⟩
      have hshort : (p.drop i).length ≤ size := by
        rw [List.length_drop]
        omega
      simp [fresh, List.take_of_length_le hshort]
  | @next i j ws hij hsize hws ih =>
      obtain ⟨keeps, hlength, hfresh⟩ := ih
      refine ⟨(j - i) :: keeps, by simp [hlength], ?_⟩
      have hmin : min (j - i) size = j - i := by omega
      have hdrop : p.drop j = (p.drop i).drop (j - i) := by
        rw [List.drop_drop]
        congr 1
        omega
      calc (fresh ((j - i) :: keeps) ((p.drop i).take size :: ws)).flatten
          = (p.drop i).take (j - i) ++ (fresh keeps ws).flatten := by
            simp [fresh, List.take_take, hmin]
        _ = (p.drop i).take (j - i) ++ (p.drop i).drop (j - i) := by rw [hfresh, hdrop]
        _ = p.drop i := List.take_append_drop ..

theorem ink_blankLine : ink Limits.blankLine = [] := by decide

/-- No character but whitespace is skipped between two chunks. -/
theorem Cover.ink_fresh {maxChars : ℕ} {paras chunks : List Text}
    (h : Cover maxChars paras chunks) :
    ∃ keeps : List ℕ, keeps.length = chunks.length ∧
      ink (fresh keeps chunks).flatten = ink paras.flatten := by
  induction h with
  | done => exact ⟨[], rfl, rfl⟩
  | @packed paras rest chunks hne hsize hrest ih =>
      obtain ⟨keeps, hlength, hink⟩ := ih
      refine ⟨(join Limits.blankLine paras).length :: keeps, by simp [hlength], ?_⟩
      have hjoin := ink_join ink_blankLine paras
      simp only [fresh, List.zipWith_cons_cons, List.take_length, List.flatten_cons, ink_append,
        List.flatten_append, hjoin]
      rw [← hink]
      rfl
  | @windows p ws rest chunks hlong hws hrest ih =>
      obtain ⟨keeps, hlength, hink⟩ := ih
      obtain ⟨front, hfront, hfresh⟩ := hws.flatten_fresh
      refine ⟨front ++ keeps, by simp [hfront, hlength], ?_⟩
      have happend : fresh (front ++ keeps) (ws ++ chunks) = fresh front ws ++ fresh keeps chunks :=
        List.zipWith_append hfront
      rw [happend, List.flatten_append, ink_append, hfresh, hink, List.drop_zero,
        List.flatten_cons, ink_append]

/-! ## The paragraphs hold the text -/

theorem isSpace_of_breakAhead {c : Char} {s : Text} (h : breakAhead (c :: s) = true) :
    isSpace c = true := by
  by_contra hc
  simp [breakAhead, hc] at h

theorem ink_splitBlankFrom (s : Text) : ∀ (inGap : Bool) (part : Text),
    (inGap = true → part = [] ∧ breakAhead s = true) →
      ink (splitBlankFrom inGap part s).flatten = ink part ++ ink s := by
  induction s with
  | nil =>
      intro inGap part _
      simp [splitBlankFrom]
  | cons c s ih =>
      intro inGap part hgap
      cases inGap with
      | true =>
          obtain ⟨rfl, hbreak⟩ := hgap rfl
          have hrest := ih (breakAhead s) [] fun h => ⟨rfl, h⟩
          simp only [splitBlankFrom, if_true, hrest,
            ink_cons_of_isSpace (isSpace_of_breakAhead hbreak)]
      | false =>
          rw [splitBlankFrom, if_neg (by simp)]
          split
          · rename_i h
            have hc : isSpace c = true := by rw [h.1]; decide
            have hrest := ih true [] fun _ => ⟨rfl, h.2⟩
            rw [List.flatten_cons, ink_append, hrest, ink_cons_of_isSpace hc]
            rfl
          · have hrest := ih false (part ++ [c]) fun h => by cases h
            have hcons : ink (c :: s) = ink [c] ++ ink s := ink_append [c] s
            rw [hrest, ink_append, hcons, List.append_assoc]

theorem ink_splitBlank (s : Text) : ink (splitBlank s).flatten = ink s :=
  ink_splitBlankFrom s false [] fun h => by cases h

theorem ink_flatten_filter (parts : List Text) :
    ink ((parts.map trim).filter (· ≠ [])).flatten = ink parts.flatten := by
  induction parts with
  | nil => rfl
  | cons part parts ih =>
      rw [List.map_cons, List.flatten_cons, ink_append, ← ink_trim part, ← ih]
      by_cases h : trim part = []
      · simp [h]
      · simp [h]

/-- Splitting and stripping lose whitespace only. -/
theorem ink_paragraphs (text : Text) : ink (paragraphs text).flatten = ink text := by
  rw [paragraphs, ink_flatten_filter, ink_splitBlank, ink_trim]

/-! ## The windows of a long paragraph -/

namespace Limits

variable {limits : Limits}

theorem step_pos (limits : Limits) : 0 < limits.step := by
  unfold step
  omega

theorem step_le (h : 1 ≤ limits.maxChars) : limits.step ≤ limits.maxChars := by
  unfold step
  omega

/-- The windows made, or as many chunks as are returned. -/
theorem appendWindows_eq (p : Text) (starts : List ℕ) : ∀ chunks : List Text,
    limits.appendWindows p starts chunks =
        .ok (chunks ++ starts.map fun i => (p.drop i).take limits.maxChars) ∨
      limits.appendWindows p starts chunks =
          .error ((chunks ++ starts.map fun i => (p.drop i).take limits.maxChars).take
            limits.maxChunks) ∧
        limits.maxChunks ≤
          (chunks ++ starts.map fun i => (p.drop i).take limits.maxChars).length := by
  induction starts with
  | nil =>
      intro chunks
      exact Or.inl (by simp [appendWindows])
  | cons i starts ih =>
      intro chunks
      have happend : chunks ++ (i :: starts).map (fun j => (p.drop j).take limits.maxChars) =
          (chunks ++ [(p.drop i).take limits.maxChars]) ++
            starts.map fun j => (p.drop j).take limits.maxChars := by
        simp
      rw [happend]
      simp only [appendWindows]
      split
      · rename_i hfull
        right
        refine ⟨by rw [List.take_append_of_le_length hfull], ?_⟩
        rw [List.length_append]
        omega
      · exact ih _

/-- So many starts at distances no larger than a window, the last of them in the text and
close enough to its end. -/
theorem windows_range {size step n : ℕ} {p : Text} (hstep : 0 < step) (hsize : step ≤ size) :
    ∀ i, i + n * step < p.length → p.length ≤ i + (n + 1) * step →
      Windows size p i ((List.range' i (n + 1) step).map fun j => (p.drop j).take size) := by
  induction n with
  | zero =>
      intro i hi hend
      exact Windows.last (by omega) (by omega)
  | succ n ih =>
      intro i hi hend
      rw [List.range'_succ, List.map_cons]
      have hmul : (n + 1) * step = n * step + step := Nat.succ_mul n step
      have hmul2 : (n + 1 + 1) * step = (n + 1) * step + step := Nat.succ_mul (n + 1) step
      exact Windows.next (by omega) (by omega) (ih (i + step) (by omega) (by omega))

theorem windows_starts (h : 1 ≤ limits.maxChars) {p : Text} (hp : limits.maxChars < p.length) :
    Windows limits.maxChars p 0
      ((limits.starts p).map fun i => (p.drop i).take limits.maxChars) := by
  have hstep := limits.step_pos
  have hsize := step_le h
  -- as many as fit, and the last one is not behind the end
  obtain ⟨n, hn⟩ : ∃ n, (p.length + limits.step - 1) / limits.step = n + 1 :=
    Nat.exists_eq_succ_of_ne_zero (Nat.div_pos (by omega) hstep).ne'
  have hlow : (n + 1) * limits.step ≤ p.length + limits.step - 1 := by
    rw [← hn]
    exact Nat.div_mul_le_self ..
  have hhigh : p.length + limits.step - 1 < (n + 1 + 1) * limits.step := by
    rw [← hn]
    exact Nat.lt_mul_of_div_lt (by omega) hstep
  have hmul : (n + 1) * limits.step = n * limits.step + limits.step := Nat.succ_mul ..
  have hmul2 : (n + 1 + 1) * limits.step = (n + 1) * limits.step + limits.step :=
    Nat.succ_mul ..
  rw [starts, hn]
  exact windows_range hstep hsize 0 (by omega) (by omega)

/-! ## Packing -/

/-- What a paragraph leaves behind: the chunks and the current one. -/
inductive Packs (limits : Limits) (chunks : List Text) (cur p : Text) : List Text → Text → Prop
  | windows (hlong : limits.maxChars < p.length) :
      Packs limits chunks cur p
        (flushed chunks cur ++
          (limits.starts p).map fun i => (p.drop i).take limits.maxChars) []
  | started (hp : p.length ≤ limits.maxChars) : Packs limits chunks cur p (flushed chunks cur) p
  | joined (hcur : cur ≠ []) (hsize : (cur ++ blankLine ++ p).length ≤ limits.maxChars) :
      Packs limits chunks cur p chunks (cur ++ blankLine ++ p)

/-- The loop goes on behind a paragraph, or it has enough. -/
theorem pack_cons (chunks : List Text) (cur : Text) {p : Text} (paras : List Text)
    (hp : trim p ≠ []) :
    ∃ made next, limits.Packs chunks cur (trim p) made next ∧
      (limits.pack chunks cur (p :: paras) = limits.pack made next paras ∨
        limits.pack chunks cur (p :: paras) = made.take limits.maxChunks ∧
          limits.maxChunks ≤ made.length) := by
  by_cases hlong : limits.maxChars < (trim p).length
  · refine ⟨_, _, Packs.windows hlong, ?_⟩
    simp only [pack, if_neg hp, if_pos hlong]
    rcases limits.appendWindows_eq (trim p) (limits.starts (trim p)) (flushed chunks cur)
      with h | ⟨h, hfull⟩
    · left
      rw [h]
    · right
      rw [h]
      exact ⟨rfl, hfull⟩
  · by_cases hcond : cur ≠ [] ∧ limits.maxChars < cur.length + (trim p).length + 2
    · refine ⟨_, _, Packs.started (by omega), ?_⟩
      simp only [pack, if_neg hp, if_neg hlong, if_pos hcond, flushed, if_neg hcond.1]
      split
      · exact Or.inr ⟨rfl, ‹_›⟩
      · exact Or.inl rfl
    · by_cases hcur : cur = []
      · refine ⟨_, _, Packs.started (by omega), ?_⟩
        simp only [pack, if_neg hp, if_neg hlong, if_neg hcond, flushed, if_pos hcur]
        split
        · exact Or.inr ⟨rfl, ‹_›⟩
        · exact Or.inl rfl
      · refine ⟨_, _, Packs.joined hcur ?_, ?_⟩
        · have hsize : ¬ limits.maxChars < cur.length + (trim p).length + 2 :=
            fun hfull => hcond ⟨hcur, hfull⟩
          simp only [List.length_append, blankLine, List.length_cons, List.length_nil]
          omega
        · simp only [pack, if_neg hp, if_neg hlong, if_neg hcond, if_neg hcur]
          split
          · exact Or.inr ⟨rfl, ‹_›⟩
          · exact Or.inl rfl

theorem flushed_eq_append (chunks : List Text) (cur : Text) :
    flushed chunks cur = chunks ++ flushed [] cur := by
  unfold flushed
  split <;> simp

theorem join_ne_nil {paras : List Text} (hne : paras ≠ []) (h : ∀ p ∈ paras, p ≠ []) :
    join blankLine paras ≠ [] := by
  cases paras with
  | nil => exact absurd rfl hne
  | cons p paras =>
      have hp := h p List.mem_cons_self
      cases paras with
      | nil => simpa using hp
      | cons next paras => simp [Corpus.join_cons, hp]

/-- The paragraphs of the current chunk, if there are any, are covered by it. -/
theorem cover_flushed {maxChars : ℕ} {current rest chunks : List Text}
    (h : ∀ p ∈ current, p ≠ []) (hsize : (join blankLine current).length ≤ maxChars)
    (hrest : Cover maxChars rest chunks) :
    Cover maxChars (current ++ rest) (flushed [] (join blankLine current) ++ chunks) := by
  by_cases hne : current = []
  · subst hne
    exact hrest
  · rw [flushed, if_neg (join_ne_nil hne h)]
    exact Cover.packed hne hsize hrest

/-- Whatever is read, there are chunks that cover it, and of these the first are returned.
The current chunk holds the paragraphs read last. -/
theorem pack_spec (hpos : 1 ≤ limits.maxChars) (paras : List Text) :
    ∀ chunks current : List Text, (∀ p ∈ current, p ≠ []) →
      (join blankLine current).length ≤ limits.maxChars →
      ∃ more, Cover limits.maxChars (current ++ (paras.map trim).filter (· ≠ [])) more ∧
        limits.pack chunks (join blankLine current) paras =
          (chunks ++ more).take limits.maxChunks := by
  induction paras with
  | nil =>
      intro chunks current hcurrent hsize
      refine ⟨flushed [] (join blankLine current), ?_, ?_⟩
      · have hdone : Cover limits.maxChars [] [] := Cover.done
        have hcover := cover_flushed hcurrent hsize hdone
        simpa using hcover
      · rw [pack, flushed_eq_append]
  | cons p paras ih =>
      intro chunks current hcurrent hsize
      by_cases hp : trim p = []
      · have hsame := ih chunks current hcurrent hsize
        simp only [pack, List.map_cons, hp]
        exact hsame
      · have hfilter : ((p :: paras).map trim).filter (· ≠ []) =
            trim p :: (paras.map trim).filter (· ≠ []) := by
          rw [List.map_cons, List.filter_cons_of_pos (by simpa using hp)]
        rw [hfilter]
        obtain ⟨made, next, hpacks, hpack⟩ :=
          limits.pack_cons chunks (join blankLine current) paras hp
        -- chunks returned early are the first of those the rest would give
        have hreturn : ∀ more, limits.pack made next paras =
            (made ++ more).take limits.maxChunks →
            limits.pack chunks (join blankLine current) (p :: paras) =
              (made ++ more).take limits.maxChunks := by
          intro more hmore
          rcases hpack with hpack | ⟨hpack, hfull⟩
          · rw [hpack, hmore]
          · rw [hpack, List.take_append_of_le_length hfull]
        cases hpacks with
        | windows hlong =>
            obtain ⟨more, hcover, hmore⟩ := ih _ [] (by simp) (by simp [join])
            refine ⟨_, cover_flushed hcurrent hsize
              (Cover.windows hlong (windows_starts hpos hlong) hcover), ?_⟩
            rw [hreturn more hmore, flushed_eq_append]
            simp only [List.append_assoc]
        | started hshort =>
            obtain ⟨more, hcover, hmore⟩ := ih (flushed chunks (join blankLine current)) [trim p]
              (by simpa using hp) (by simpa using hshort)
            refine ⟨_, cover_flushed hcurrent hsize hcover, ?_⟩
            rw [Corpus.join_singleton] at hmore
            rw [hreturn more hmore, flushed_eq_append chunks]
            simp only [List.append_assoc]
        | joined hcur hlength =>
            have hne : current ≠ [] := by
              rintro rfl
              exact hcur rfl
            have hjoin := Corpus.join_concat blankLine (trim p) hne
            obtain ⟨more, hcover, hmore⟩ := ih chunks (current ++ [trim p])
              (by
                intro q hq
                rcases List.mem_append.mp hq with hq | hq
                · exact hcurrent q hq
                · rw [List.mem_singleton.mp hq]
                  exact hp)
              (by rw [hjoin]; exact hlength)
            refine ⟨more, by simpa using hcover, ?_⟩
            rw [hjoin] at hmore
            exact hreturn more hmore

/-! ## Bounds -/

theorem windows_fit {size i : ℕ} {p : Text} {ws : List Text} (hsize : 1 ≤ size)
    (h : Windows size p i ws) : i < p.length ∧ ∀ w ∈ ws, w ≠ [] ∧ w.length ≤ size := by
  have hfit : ∀ j, j < p.length →
      (p.drop j).take size ≠ [] ∧ ((p.drop j).take size).length ≤ size := by
    intro j hj
    refine ⟨?_, List.length_take_le ..⟩
    intro hnil
    have hlength := congrArg List.length hnil
    simp only [List.length_take, List.length_drop, List.length_nil] at hlength
    omega
  induction h with
  | @last i hi hend =>
      refine ⟨hi, ?_⟩
      intro w hw
      rw [List.mem_singleton.mp hw]
      exact hfit i hi
  | @next i j ws hij hnext hws ih =>
      have hi : i < p.length := by omega
      refine ⟨hi, ?_⟩
      intro w hw
      rcases List.mem_cons.mp hw with rfl | hw
      · exact hfit i hi
      · exact ih.2 w hw

theorem cover_fits {maxChars : ℕ} {paras chunks : List Text} (hpos : 1 ≤ maxChars)
    (h : Cover maxChars paras chunks) (hparas : ∀ p ∈ paras, p ≠ []) :
    ∀ c ∈ chunks, c ≠ [] ∧ c.length ≤ maxChars := by
  induction h with
  | done =>
      intro c hc
      cases hc
  | @packed paras rest chunks hne hsize hrest ih =>
      intro c hc
      rcases List.mem_cons.mp hc with rfl | hc
      · exact ⟨join_ne_nil hne fun p hp => hparas p (List.mem_append_left rest hp), hsize⟩
      · exact ih (fun p hp => hparas p (List.mem_append_right paras hp)) c hc
  | @windows p ws rest chunks hlong hws hrest ih =>
      intro c hc
      rcases List.mem_append.mp hc with hc | hc
      · exact (windows_fit hpos hws).2 c hc
      · exact ih (fun q hq => hparas q (List.mem_cons_of_mem p hq)) c hc

theorem chunkText_eq_take (hpos : 1 ≤ limits.maxChars) (text : Text) :
    ∃ all, Cover limits.maxChars (paragraphs text) all ∧
      limits.chunkText text = all.take limits.maxChunks := by
  by_cases hnil : trim text = []
  · refine ⟨[], ?_, ?_⟩
    · have hempty : paragraphs text = [] := by
        rw [paragraphs, hnil]
        decide
      rw [hempty]
      exact Cover.done
    · simp only [chunkText, if_pos hnil, List.take_nil]
  · obtain ⟨all, hcover, hall⟩ :=
      limits.pack_spec hpos (splitBlank (trim text)) [] [] (by simp) (by simp [join])
    refine ⟨all, hcover, ?_⟩
    simp only [chunkText, if_neg hnil]
    exact hall

end Limits

/-- Chunks are bounded, and where not all chunks allowed are used, every paragraph of the text
is covered and no character but whitespace is skipped. -/
theorem chunkText_bounds_and_covers (limits : Limits) (hpos : 1 ≤ limits.maxChars) (text : Text) :
    (limits.chunkText text).length ≤ limits.maxChunks ∧
      (∀ c ∈ limits.chunkText text, c ≠ [] ∧ c.length ≤ limits.maxChars) ∧
      ((limits.chunkText text).length < limits.maxChunks →
        Cover limits.maxChars (paragraphs text) (limits.chunkText text) ∧
          ∃ keeps : List ℕ, keeps.length = (limits.chunkText text).length ∧
            ink (fresh keeps (limits.chunkText text)).flatten = ink text) := by
  obtain ⟨all, hcover, hall⟩ := Limits.chunkText_eq_take hpos text
  have hparas : ∀ p ∈ paragraphs text, p ≠ [] := by
    intro p hp
    simpa using (List.mem_filter.mp hp).2
  rw [hall]
  refine ⟨List.length_take_le .., ?_, ?_⟩
  · intro c hc
    exact Limits.cover_fits hpos hcover hparas c (List.mem_of_mem_take hc)
  · intro hlt
    -- fewer chunks than allowed: nothing was cut off
    have hwhole : all.take limits.maxChunks = all := by
      apply List.take_of_length_le
      rw [List.length_take] at hlt
      omega
    rw [hwhole]
    obtain ⟨keeps, hlength, hink⟩ := hcover.ink_fresh
    exact ⟨hcover, keeps, hlength, by rw [hink, ink_paragraphs]⟩

namespace Sample

/-- A paragraph, one that is too long, and two that fit into one chunk. -/
def limits : Limits := { maxChars := 5, overlap := 2, maxChunks := 9 }

def text : Text := "ab\n \ncdefghijk\n\nl\n\nm".toList

example : limits.chunkText text =
    ["ab".toList, "cdefg".toList, "fghij".toList, "ijk".toList, "l\n\nm".toList] := by
  decide +kernel

theorem chunkText_covers_sample :
    (limits.chunkText text).length ≤ limits.maxChunks ∧
      (∀ c ∈ limits.chunkText text, c ≠ [] ∧ c.length ≤ limits.maxChars) ∧
      ((limits.chunkText text).length < limits.maxChunks →
        Cover limits.maxChars (paragraphs text) (limits.chunkText text) ∧
          ∃ keeps : List ℕ, keeps.length = (limits.chunkText text).length ∧
            ink (fresh keeps (limits.chunkText text)).flatten = ink text) :=
  chunkText_bounds_and_covers limits (by decide) text

end Sample

end CrawlTrove.Retrieval
