import Mathlib

/-!
# Rankings by a score

A ranking lists things by descending score and, where scores are equal, by an order of
their own. The order is total, so a ranking is determined by what it lists, and the place
of a thing is the number of those that precede it: it does not rise when the thing gains
and the others lose (`Ranked.idxOf_le`).
-/

namespace CrawlTrove.Ranking

variable {κ S O : Type*} [LinearOrder S] [LinearOrder O] {ord : κ → O}

/-- A higher score, or the same and earlier in the order. -/
def Precedes (score : κ → S) (ord : κ → O) (a b : κ) : Prop :=
  score b < score a ∨ (score a = score b ∧ ord a < ord b)

instance (score : κ → S) (ord : κ → O) (a b : κ) : Decidable (Precedes score ord a b) :=
  inferInstanceAs (Decidable (_ ∨ _))

/-- A list in which each thing precedes all behind it. -/
def Ranked (score : κ → S) (ord : κ → O) (l : List κ) : Prop := l.Pairwise (Precedes score ord)

variable {score score' : κ → S}

theorem Precedes.irrefl (a : κ) : ¬ Precedes score ord a a := by
  rintro (h | ⟨-, h⟩)
  · exact lt_irrefl _ h
  · exact lt_irrefl _ h

theorem Precedes.trans {a b c : κ} (h : Precedes score ord a b) (h' : Precedes score ord b c) :
    Precedes score ord a c := by
  rcases h with h | ⟨heq, h⟩
  · rcases h' with h' | ⟨heq', -⟩
    · exact Or.inl (lt_trans h' h)
    · exact Or.inl (heq' ▸ h)
  · rcases h' with h' | ⟨heq', h'⟩
    · exact Or.inl (heq ▸ h')
    · exact Or.inr ⟨heq.trans heq', lt_trans h h'⟩

theorem Precedes.asymm {a b : κ} (h : Precedes score ord a b) : ¬ Precedes score ord b a :=
  fun h' => Precedes.irrefl a (h.trans h')

/-- Two things the order tells apart are ranked one way or the other. -/
theorem Precedes.total (hord : Function.Injective ord) {a b : κ} (hne : a ≠ b) :
    Precedes score ord a b ∨ Precedes score ord b a := by
  rcases lt_trichotomy (score a) (score b) with h | h | h
  · exact Or.inr (Or.inl h)
  · rcases lt_trichotomy (ord a) (ord b) with h' | h' | h'
    · exact Or.inl (Or.inr ⟨h, h'⟩)
    · exact absurd (hord h') hne
    · exact Or.inr (Or.inr ⟨h.symm, h'⟩)
  · exact Or.inl (Or.inl h)

/-- Who gains precedes at least whom it preceded. -/
theorem Precedes.of_gain {a b : κ} (ha : score a ≤ score' a) (hb : score' b ≤ score b)
    (h : Precedes score' ord b a) : Precedes score ord b a := by
  rcases h with h | ⟨heq, h⟩
  · exact Or.inl (lt_of_le_of_lt ha (lt_of_lt_of_le h hb))
  · rcases lt_or_eq_of_le (ha.trans (heq ▸ hb)) with hlt | hsame
    · exact Or.inl hlt
    · exact Or.inr ⟨hsame.symm, h⟩

theorem Ranked.nodup {l : List κ} (h : Ranked score ord l) : l.Nodup := by
  refine List.Pairwise.imp ?_ h
  rintro a b hab rfl
  exact Precedes.irrefl a hab

/-- A ranking is determined by what it lists. -/
theorem Ranked.eq_of_mem_iff {l l' : List κ} (h : Ranked score ord l) (h' : Ranked score ord l')
    (hmem : ∀ a, a ∈ l ↔ a ∈ l') : l = l' := by
  have hperm : l.Perm l' := (List.perm_ext_iff_of_nodup h.nodup h'.nodup).mpr hmem
  refine List.Perm.eq_of_pairwise ?_ h h' hperm
  intro a b _ _ hab hba
  exact absurd hba hab.asymm

/-- The place of a thing is the number of those that precede it. -/
theorem Ranked.idxOf_eq [BEq κ] [LawfulBEq κ] {l : List κ} (h : Ranked score ord l) {a : κ}
    (ha : a ∈ l) : l.idxOf a = l.countP fun b => Precedes score ord b a := by
  induction l with
  | nil => exact absurd ha List.not_mem_nil
  | cons c l ih =>
      obtain ⟨hc, hl⟩ := List.pairwise_cons.mp h
      by_cases hca : c = a
      · subst hca
        have hnone : ∀ b ∈ c :: l, ¬ decide (Precedes score ord b c) = true := by
          intro b hb
          rw [decide_eq_true_iff]
          rcases List.mem_cons.mp hb with rfl | hb
          · exact Precedes.irrefl b
          · exact (hc b hb).asymm
        rw [List.idxOf_cons_self, List.countP_eq_zero.mpr hnone]
      · have hmem : a ∈ l := (List.mem_cons.mp ha).resolve_left (Ne.symm hca)
        rw [List.idxOf_cons_ne _ hca, ih hl hmem, List.countP_cons,
          if_pos (decide_eq_true (hc a hmem))]

/-- A thing that gains while the others lose does not move back. -/
theorem Ranked.idxOf_le [BEq κ] [LawfulBEq κ] {l l' : List κ} (h : Ranked score ord l)
    (h' : Ranked score' ord l') (hmem : ∀ a, a ∈ l' ↔ a ∈ l) {a : κ} (ha : a ∈ l)
    (hgain : score a ≤ score' a) (hloss : ∀ b, b ≠ a → score' b ≤ score b) :
    l'.idxOf a ≤ l.idxOf a := by
  have hperm : l'.Perm l := (List.perm_ext_iff_of_nodup h'.nodup h.nodup).mpr hmem
  rw [h.idxOf_eq ha, h'.idxOf_eq ((hmem a).mpr ha), hperm.countP_eq]
  refine List.countP_mono_left ?_
  intro b _ hb
  rw [decide_eq_true_iff] at hb ⊢
  by_cases hba : b = a
  · subst hba
    exact absurd hb (Precedes.irrefl b)
  · exact Precedes.of_gain hgain (hloss b hba) hb

end CrawlTrove.Ranking
