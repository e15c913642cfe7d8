import Mathlib

/-!
# Splitting texts and joining them

`str.split` with a character and with a line end, and `str.join`. What was joined is
split into the same parts, if none of them has the separator.
-/

namespace CrawlTrove.Web

/-- The parts with a character put in front of the first. -/
def consHead (c : Char) : List (List Char) → List (List Char)
  | [] => [[c]]
  | part :: parts => (c :: part) :: parts

/-- `s.split(c)`. -/
def split (c : Char) : List Char → List (List Char)
  | [] => [[]]
  | d :: s => if d = c then [] :: split c s else consHead d (split c s)

/-- `s.split("\r\n")`. -/
def splitCrlf : List Char → List (List Char)
  | [] => [[]]
  | '\r' :: '\n' :: s => [] :: splitCrlf s
  | c :: s => consHead c (splitCrlf s)

/-- `c.join(parts)`. -/
def joinWith (separator : List Char) : List (List Char) → List Char
  | [] => []
  | [part] => part
  | part :: parts => part ++ separator ++ joinWith separator parts

example : splitCrlf "a\r\nb\r\n".toList = ["a".toList, "b".toList, []] := by decide +kernel

/-! ## One character -/

theorem split_ne_nil (c : Char) (s : List Char) : split c s ≠ [] := by
  cases s with
  | nil => simp [split]
  | cons d s =>
      unfold split
      split
      · simp
      · cases split c s <;> simp [consHead]

theorem split_eq_singleton {c : Char} {s : List Char} (h : c ∉ s) : split c s = [s] := by
  induction s with
  | nil => rfl
  | cons d s ih =>
      simp only [List.mem_cons, not_or] at h
      rw [split, if_neg (Ne.symm h.1), ih h.2]
      rfl

theorem split_append {c : Char} {s : List Char} (h : c ∉ s) (rest : List Char) :
    split c (s ++ c :: rest) = s :: split c rest := by
  induction s with
  | nil => simp [split]
  | cons d s ih =>
      simp only [List.mem_cons, not_or] at h
      rw [List.cons_append, split, if_neg (Ne.symm h.1), ih h.2]
      rfl

theorem split_joinWith {c : Char} {parts : List (List Char)} (hne : parts ≠ [])
    (h : ∀ part ∈ parts, c ∉ part) : split c (joinWith [c] parts) = parts := by
  induction parts with
  | nil => exact absurd rfl hne
  | cons part parts ih =>
      have hpart : c ∉ part := h part List.mem_cons_self
      cases parts with
      | nil => exact split_eq_singleton hpart
      | cons next parts =>
          have hrest := ih (by simp) fun p hp => h p (List.mem_cons_of_mem part hp)
          rw [joinWith, List.append_assoc, List.singleton_append, split_append hpart, hrest]
          simp

theorem joinWith_consHead (separator : List Char) (d : Char) {parts : List (List Char)}
    (hne : parts ≠ []) : joinWith separator (consHead d parts) = d :: joinWith separator parts := by
  cases parts with
  | nil => exact absurd rfl hne
  | cons part parts =>
      cases parts with
      | nil => rfl
      | cons next parts => rfl

theorem joinWith_cons (separator part : List Char) {parts : List (List Char)} (hne : parts ≠ []) :
    joinWith separator (part :: parts) = part ++ separator ++ joinWith separator parts := by
  cases parts with
  | nil => exact absurd rfl hne
  | cons next parts => rfl

theorem joinWith_split (c : Char) (s : List Char) : joinWith [c] (split c s) = s := by
  induction s with
  | nil => rfl
  | cons d s ih =>
      by_cases hd : d = c
      · rw [split, if_pos hd, joinWith_cons _ _ (split_ne_nil c s), ih, hd]
        rfl
      · rw [split, if_neg hd, joinWith_consHead _ _ (split_ne_nil c s), ih]

theorem not_mem_of_mem_split {c : Char} {s part : List Char} (h : part ∈ split c s) : c ∉ part := by
  induction s generalizing part with
  | nil =>
      obtain rfl := List.mem_singleton.mp h
      exact List.not_mem_nil
  | cons d s ih =>
      by_cases hd : d = c
      · rw [split, if_pos hd] at h
        rcases List.mem_cons.mp h with rfl | h
        · exact List.not_mem_nil
        · exact ih h
      · rw [split, if_neg hd] at h
        cases hsplit : split c s with
        | nil => exact absurd hsplit (split_ne_nil c s)
        | cons first parts =>
            rw [hsplit] at h ih
            rcases List.mem_cons.mp h with rfl | h
            · simp only [List.mem_cons, not_or]
              exact ⟨Ne.symm hd, ih List.mem_cons_self⟩
            · exact ih (List.mem_cons_of_mem first h)

theorem mem_of_mem_split {c d : Char} {s part : List Char} (h : part ∈ split c s)
    (hd : d ∈ part) : d ∈ s := by
  induction s generalizing part with
  | nil =>
      obtain rfl := List.mem_singleton.mp h
      exact hd
  | cons e s ih =>
      by_cases he : e = c
      · rw [split, if_pos he] at h
        rcases List.mem_cons.mp h with rfl | h
        · cases hd
        · exact List.mem_cons_of_mem e (ih h hd)
      · rw [split, if_neg he] at h
        cases hsplit : split c s with
        | nil => exact absurd hsplit (split_ne_nil c s)
        | cons first parts =>
            rw [hsplit] at h ih
            rcases List.mem_cons.mp h with rfl | h
            · rcases List.mem_cons.mp hd with rfl | hd
              · exact List.mem_cons_self
              · exact List.mem_cons_of_mem e (ih List.mem_cons_self hd)
            · exact List.mem_cons_of_mem e (ih (List.mem_cons_of_mem first h) hd)

/-! ## Line ends -/

/-- The line end occurs somewhere. -/
def hasCrlf : List Char → Bool
  | [] => false
  | '\r' :: '\n' :: _ => true
  | _ :: s => hasCrlf s

theorem hasCrlf_of_not_mem {s : List Char} (h : '\r' ∉ s) : hasCrlf s = false := by
  induction s with
  | nil => rfl
  | cons c s ih =>
      simp only [List.mem_cons, not_or] at h
      rw [hasCrlf]
      · exact ih h.2
      · rintro t rfl -
        exact h.1 rfl

theorem splitCrlf_ne_nil (s : List Char) : splitCrlf s ≠ [] := by
  cases s using splitCrlf.fun_cases with
  | case1 => simp [splitCrlf]
  | case2 s => simp [splitCrlf]
  | case3 c s h =>
      rw [splitCrlf]
      · cases splitCrlf s <;> simp [consHead]
      · exact h

theorem joinWith_splitCrlf (s : List Char) : joinWith ['\r', '\n'] (splitCrlf s) = s := by
  induction s using splitCrlf.induct with
  | case1 => rfl
  | case2 s ih =>
      rw [splitCrlf, joinWith_cons _ _ (splitCrlf_ne_nil s), ih]
      rfl
  | case3 c s h ih =>
      rw [splitCrlf, joinWith_consHead _ _ (splitCrlf_ne_nil s), ih]
      exact h

theorem hasCrlf_cons {c : Char} {s : List Char} (h : hasCrlf (c :: s) = false) :
    hasCrlf s = false ∧ ∀ t, ¬ (c = '\r' ∧ s = '\n' :: t) := by
  cases s with
  | nil => exact ⟨rfl, by simp⟩
  | cons d s =>
      by_cases hend : c = '\r' ∧ d = '\n'
      · obtain ⟨rfl, rfl⟩ := hend
        simp [hasCrlf] at h
      · rw [hasCrlf] at h
        · exact ⟨h, by rintro t ⟨rfl, ht⟩; exact hend ⟨rfl, (List.cons.inj ht).1⟩⟩
        · rintro t rfl ht
          exact hend ⟨rfl, (List.cons.inj ht).1⟩

theorem splitCrlf_cons {c : Char} {s : List Char} (h : ∀ t, ¬ (c = '\r' ∧ s = '\n' :: t)) :
    splitCrlf (c :: s) = consHead c (splitCrlf s) := by
  rw [splitCrlf]
  exact fun t hc hs => h t ⟨hc, hs⟩

theorem splitCrlf_eq_singleton {s : List Char} (h : hasCrlf s = false) : splitCrlf s = [s] := by
  induction s with
  | nil => rfl
  | cons c s ih =>
      obtain ⟨hs, hc⟩ := hasCrlf_cons h
      rw [splitCrlf_cons hc, ih hs]
      rfl

/-- A line, which does not end in a carriage return of a longer line end. -/
theorem splitCrlf_append {s : List Char} (h : hasCrlf s = false) (rest : List Char) :
    splitCrlf (s ++ '\r' :: '\n' :: rest) = s :: splitCrlf rest := by
  induction s with
  | nil => rfl
  | cons c s ih =>
      obtain ⟨hs, hc⟩ := hasCrlf_cons h
      have hcons : ∀ t, ¬ (c = '\r' ∧ s ++ '\r' :: '\n' :: rest = '\n' :: t) := by
        rintro t ⟨rfl, ht⟩
        cases s with
        | nil => simp at ht
        | cons d s => exact hc s ⟨rfl, by rw [(List.cons.inj ht).1]⟩
      rw [List.cons_append, splitCrlf_cons hcons, ih hs]
      rfl

theorem splitCrlf_joinWith {parts : List (List Char)} (hne : parts ≠ [])
    (h : ∀ part ∈ parts, hasCrlf part = false) :
    splitCrlf (joinWith ['\r', '\n'] parts) = parts := by
  induction parts with
  | nil => exact absurd rfl hne
  | cons part parts ih =>
      have hpart := h part List.mem_cons_self
      cases parts with
      | nil => exact splitCrlf_eq_singleton hpart
      | cons next parts =>
          have hrest := ih (by simp) fun p hp => h p (List.mem_cons_of_mem part hp)
          rw [joinWith, List.append_assoc, List.cons_append, List.singleton_append,
            splitCrlf_append hpart, hrest]
          simp

theorem hasCrlf_of_mem_splitCrlf {s part : List Char} (h : part ∈ splitCrlf s) :
    hasCrlf part = false := by
  induction s using splitCrlf.induct generalizing part with
  | case1 =>
      obtain rfl := List.mem_singleton.mp h
      rfl
  | case2 s ih =>
      rw [splitCrlf] at h
      rcases List.mem_cons.mp h with rfl | h
      · rfl
      · exact ih h
  | case3 c s hend ih =>
      have hcons : ∀ t, ¬ (c = '\r' ∧ s = '\n' :: t) := fun t ht => hend t ht.1 ht.2
      rw [splitCrlf_cons hcons] at h
      have hjoin := joinWith_splitCrlf s
      cases hsplit : splitCrlf s with
      | nil => exact absurd hsplit (splitCrlf_ne_nil s)
      | cons first parts =>
          rw [hsplit] at h ih hjoin
          rcases List.mem_cons.mp h with rfl | h
          · have hfirst := ih List.mem_cons_self
            cases first with
            | nil => simp [hasCrlf]
            | cons d first =>
                rw [hasCrlf]
                · exact hfirst
                · rintro t rfl ht
                  obtain ⟨rfl, -⟩ := List.cons.inj ht
                  -- the text itself would go on with a line feed
                  cases parts with
                  | nil => exact hcons first ⟨rfl, hjoin.symm⟩
                  | cons next parts => exact hcons _ ⟨rfl, hjoin.symm⟩
          · exact ih (List.mem_cons_of_mem first h)

end CrawlTrove.Web
