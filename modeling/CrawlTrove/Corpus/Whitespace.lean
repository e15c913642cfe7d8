import CrawlTrove.Corpus.Chunking

/-!
# Whitespace and joins

What `str.strip` and `str.join` leave of the characters of a text.
-/

namespace CrawlTrove.Corpus

open Web (Text)

/-- The characters of a text that are no whitespace. -/
def ink (s : Text) : Text := s.filter fun c => !isSpace c

@[simp]
theorem ink_nil : ink [] = [] := rfl

@[simp]
theorem ink_append (s t : Text) : ink (s ++ t) = ink s ++ ink t := List.filter_append ..

theorem ink_cons_of_isSpace {c : Char} (h : isSpace c = true) (s : Text) :
    ink (c :: s) = ink s := by
  simp [ink, h]

theorem ink_dropWhile (s : Text) : ink (s.dropWhile isSpace) = ink s := by
  induction s with
  | nil => rfl
  | cons c s ih =>
      cases h : isSpace c with
      | true =>
          rw [List.dropWhile_cons_of_pos h, ih]
          exact (ink_cons_of_isSpace h s).symm
      | false => rw [List.dropWhile_cons_of_neg (by simp [h])]

theorem ink_reverse (s : Text) : ink s.reverse = (ink s).reverse := List.filter_reverse ..

/-- Stripping takes whitespace only. -/
theorem ink_trim (s : Text) : ink (trim s) = ink s := by
  rw [trim, ink_reverse, ink_dropWhile, ink_reverse, ink_dropWhile, List.reverse_reverse]

theorem trim_eq_nil_iff {s : Text} : trim s = [] ↔ ink s = [] := by
  constructor
  · intro h
    rw [← ink_trim, h]
    rfl
  · intro h
    have hall : ∀ c ∈ s, isSpace c = true := by
      intro c hc
      by_contra hspace
      have hmem : c ∈ ink s := List.mem_filter.mpr ⟨hc, by simpa using hspace⟩
      rw [h] at hmem
      cases hmem
    rw [trim, List.dropWhile_eq_nil_iff.mpr hall]
    rfl

/-! ## Stripped texts -/

/-- No whitespace in front. -/
def Inked (s : Text) : Prop := ∀ c, s.head? = some c → isSpace c = false

theorem inked_dropWhile (s : Text) : Inked (s.dropWhile isSpace) := by
  intro c hc
  have h := List.head?_dropWhile_not isSpace s
  rw [hc] at h
  simpa using h

theorem trim_front (s : Text) : trim s <+: s.dropWhile isSpace :=
  List.rdropWhile_prefix isSpace _

theorem inked_trim (s : Text) : Inked (trim s) := by
  intro c hc
  obtain ⟨rest, hrest⟩ := trim_front s
  apply inked_dropWhile s
  rw [← hrest, List.head?_append, hc]
  rfl

theorem inked_reverse_trim (s : Text) : Inked (trim s).reverse := by
  rw [trim, List.reverse_reverse]
  exact inked_dropWhile _

theorem trim_within (s : Text) : trim s <:+: s :=
  (trim_front s).isInfix.trans (List.dropWhile_suffix isSpace).isInfix

theorem infix_dropWhile {s t : Text} (hs : Inked s) (h : s <:+: t) :
    s <:+: t.dropWhile isSpace := by
  obtain ⟨front, back, rfl⟩ := h
  induction front with
  | nil =>
      cases s with
      | nil => exact List.nil_infix
      | cons c s =>
          have hc : isSpace c = false := hs c rfl
          rw [List.nil_append, List.cons_append, List.dropWhile_cons_of_neg (by simp [hc])]
          exact (List.prefix_append (c :: s) back).isInfix
  | cons d front ih =>
      rw [List.cons_append, List.cons_append]
      by_cases hd : isSpace d = true
      · rw [List.dropWhile_cons_of_pos hd]
        exact ih
      · rw [List.dropWhile_cons_of_neg hd]
        exact ⟨d :: front, back, rfl⟩

/-- What stands inside of a text stands, stripped, inside of the stripped text. -/
theorem trim_infix_trim {s t : Text} (h : s <:+: t) : trim s <:+: trim t := by
  have hfront := infix_dropWhile (inked_trim s) ((trim_within s).trans h)
  have hback := infix_dropWhile (inked_reverse_trim s) (List.reverse_infix.mpr hfront)
  apply List.reverse_infix.mp
  rw [trim.eq_1 t, List.reverse_reverse]
  exact hback

theorem trim_cons {c : Char} (hc : isSpace c = true) (s : Text) : trim (c :: s) = trim s := by
  rw [trim, List.dropWhile_cons_of_pos hc]
  rfl

theorem trim_concat {c : Char} (hc : isSpace c = true) (s : Text) :
    trim (s ++ [c]) = trim s := by
  induction s with
  | nil => rw [List.nil_append, trim_cons hc]
  | cons d s ih =>
      cases hd : isSpace d with
      | true => rw [List.cons_append, trim_cons hd, trim_cons hd, ih]
      | false =>
          simp only [trim, List.cons_append]
          rw [List.dropWhile_cons_of_neg (by simp [hd]), List.dropWhile_cons_of_neg (by simp [hd]),
            ← List.cons_append, List.reverse_append, List.reverse_singleton, List.singleton_append,
            List.dropWhile_cons_of_pos hc]

theorem trim_append {t : Text} (ht : ∀ c ∈ t, isSpace c = true) (s : Text) :
    trim (s ++ t) = trim s := by
  induction t using List.reverseRecOn with
  | nil => rw [List.append_nil]
  | append_singleton t c ih =>
      have hc := ht c (by simp)
      rw [← List.append_assoc, trim_concat hc, ih fun d hd => ht d (List.mem_append_left _ hd)]

/-! ## Joins -/

theorem join_cons (separator part : Text) {parts : List Text} (h : parts ≠ []) :
    join separator (part :: parts) = part ++ separator ++ join separator parts := by
  cases parts with
  | nil => exact absurd rfl h
  | cons next parts => exact List.intercalate_cons_cons

@[simp]
theorem join_singleton (separator part : Text) : join separator [part] = part := by
  simp [join]

/-- One more part at the end. -/
theorem join_concat (separator part : Text) {parts : List Text} (h : parts ≠ []) :
    join separator (parts ++ [part]) = join separator parts ++ separator ++ part := by
  induction parts with
  | nil => exact absurd rfl h
  | cons first parts ih =>
      cases parts with
      | nil => simp [join]
      | cons next parts =>
          have hrest := ih (List.cons_ne_nil next parts)
          rw [List.cons_append, join_cons separator first (by simp), hrest,
            join_cons separator first (List.cons_ne_nil next parts)]
          simp only [List.append_assoc]

theorem infix_join {separator part : Text} {parts : List Text} (h : part ∈ parts) :
    part <:+: join separator parts := by
  induction parts with
  | nil => cases h
  | cons first parts ih =>
      cases parts with
      | nil =>
          rw [List.mem_singleton.mp h, join_singleton]
      | cons next parts =>
          rw [join_cons separator first (List.cons_ne_nil next parts)]
          rcases List.mem_cons.mp h with rfl | h
          · rw [List.append_assoc]
            exact (List.prefix_append part _).isInfix
          · exact (ih h).trans (List.suffix_append _ _).isInfix

theorem mem_join {c : Char} {separator : Text} {parts : List Text}
    (h : c ∈ join separator parts) : c ∈ separator ∨ ∃ part ∈ parts, c ∈ part := by
  induction parts with
  | nil => cases h
  | cons part parts ih =>
      by_cases hne : parts = []
      · subst hne
        rw [join_singleton] at h
        exact Or.inr ⟨part, List.mem_cons_self, h⟩
      · rw [join_cons _ _ hne, List.append_assoc] at h
        rcases List.mem_append.mp h with h | h
        · exact Or.inr ⟨part, List.mem_cons_self, h⟩
        · rcases List.mem_append.mp h with h | h
          · exact Or.inl h
          · rcases ih h with h | ⟨p, hp, hc⟩
            · exact Or.inl h
            · exact Or.inr ⟨p, List.mem_cons_of_mem part hp, hc⟩

/-- A separator of whitespace adds nothing. -/
theorem ink_join {separator : Text} (h : ink separator = []) (parts : List Text) :
    ink (join separator parts) = ink parts.flatten := by
  induction parts with
  | nil => rfl
  | cons part parts ih =>
      cases parts with
      | nil => simp
      | cons next parts =>
          rw [join_cons separator part (List.cons_ne_nil next parts), List.flatten_cons]
          simp only [ink_append, h, ih, List.append_nil]

/-! ## Words -/

/-- A word as `str.split` yields it. -/
def IsWord (w : Text) : Prop := w ≠ [] ∧ ∀ c ∈ w, isSpace c = false

theorem isWord_of_mem_wordsFrom {w s : Text} : ∀ start : Text,
    (∀ c ∈ start, isSpace c = false) → w ∈ wordsFrom start s → IsWord w := by
  induction s with
  | nil =>
      intro start hstart h
      rw [wordsFrom] at h
      split at h
      · cases h
      · rename_i hne
        rw [List.mem_singleton.mp h]
        exact ⟨hne, hstart⟩
  | cons c s ih =>
      intro start hstart h
      rw [wordsFrom] at h
      split at h
      · split at h
        · exact ih [] (by simp) h
        · rename_i hne
          rcases List.mem_cons.mp h with rfl | h
          · exact ⟨hne, hstart⟩
          · exact ih [] (by simp) h
      · rename_i hc
        apply ih (start ++ [c]) _ h
        intro d hd
        rcases List.mem_append.mp hd with hd | hd
        · exact hstart d hd
        · rw [List.mem_singleton.mp hd]
          simpa using hc

theorem isWord_of_mem_words {w s : Text} (h : w ∈ words s) : IsWord w :=
  isWord_of_mem_wordsFrom [] (by simp) h

theorem IsWord.inked_append {w : Text} (h : IsWord w) (s : Text) : Inked (w ++ s) := by
  intro c hc
  obtain ⟨d, t, rfl⟩ := List.exists_cons_of_ne_nil h.1
  cases hc
  exact h.2 _ List.mem_cons_self

theorem IsWord.reverse {w : Text} (h : IsWord w) : IsWord w.reverse :=
  ⟨by simpa using h.1, fun c hc => h.2 c (List.mem_reverse.mp hc)⟩

theorem trim_eq_self {s : Text} (h : Inked s) (h' : Inked s.reverse) : trim s = s := by
  have hdrop : ∀ t : Text, Inked t → t.dropWhile isSpace = t := by
    intro t ht
    cases t with
    | nil => rfl
    | cons c t => exact List.dropWhile_cons_of_neg (by simp [ht c rfl])
  rw [trim, hdrop s h, hdrop s.reverse h', List.reverse_reverse]

/-- Words that were joined have no whitespace around them. -/
theorem trim_join_words {ws : List Text} (h : ∀ w ∈ ws, IsWord w) :
    trim (join [' '] ws) = join [' '] ws := by
  by_cases hne : ws = []
  · subst hne
    rfl
  · apply trim_eq_self
    · obtain ⟨w, rest, rfl⟩ := List.exists_cons_of_ne_nil hne
      have hw := h w List.mem_cons_self
      by_cases hrest : rest = []
      · subst hrest
        have hinked := hw.inked_append []
        rw [List.append_nil] at hinked
        rw [join_singleton]
        exact hinked
      · rw [join_cons _ _ hrest, List.append_assoc]
        exact hw.inked_append _
    · obtain ⟨front, w, rfl⟩ := List.eq_nil_or_concat'  ws |>.resolve_left hne
      have hw := (h w (by simp)).reverse
      by_cases hfront : front = []
      · subst hfront
        have hinked := hw.inked_append []
        rw [List.append_nil] at hinked
        rw [List.nil_append, join_singleton]
        exact hinked
      · rw [join_concat _ _ hfront, List.reverse_append]
        exact hw.inked_append _

end CrawlTrove.Corpus
