import Mathlib

/-!
# The nearest rows of a table

What an exact search for neighbours returns, and that it answers a search among fewer rows
when it has found enough of them.
-/

namespace CrawlTrove.Ranking

variable {α δ : Type*} [LinearOrder δ]

/-- So many rows of the table in the order of their distance, none left out that is nearer. -/
structure Nearest (distance : α → δ) (table : List α) (n : ℕ) (rows : List α) : Prop where
  subset : rows ⊆ table
  nodup : rows.Nodup
  sorted : rows.Pairwise fun a b => distance a ≤ distance b
  length : rows.length = min n table.length
  closest : ∀ a ∈ table, a ∉ rows → ∀ b ∈ rows, distance b ≤ distance a

namespace Nearest

variable {distance : α → δ} {table rows : List α} {n : ℕ}

theorem subperm (h : Nearest distance table n rows) : rows.Subperm table :=
  h.nodup.subperm h.subset

/-- A search for all rows returns all of them. -/
theorem perm (h : Nearest distance table n rows) (hn : table.length ≤ n) : rows.Perm table := by
  apply h.subperm.perm_of_length_le
  rw [h.length, min_eq_right hn]

theorem countP_le (h : Nearest distance table n rows) (p : α → Bool) :
    (rows.filter p).length ≤ (table.filter p).length := by
  rw [← List.countP_eq_length_filter, ← List.countP_eq_length_filter]
  exact h.subperm.countP_le p

/-- The first rows with a property are the nearest with it, if there are enough of them or
nothing was left out. -/
theorem take_filter (h : Nearest distance table n rows) (p : α → Bool) {k : ℕ}
    (henough : k ≤ (rows.filter p).length ∨ table.length ≤ n) :
    Nearest distance (table.filter p) k ((rows.filter p).take k) where
  subset := by
    intro a ha
    have hrow := List.mem_filter.mp (List.mem_of_mem_take ha)
    exact List.mem_filter.mpr ⟨h.subset hrow.1, hrow.2⟩
  nodup := (h.nodup.filter p).sublist (List.take_sublist k _)
  sorted := (h.sorted.filter p).sublist (List.take_sublist k _)
  length := by
    rw [List.length_take]
    rcases henough with hk | hn
    · have hle := h.countP_le p
      omega
    · rw [((h.perm hn).filter p).length_eq]
  closest := by
    intro a ha hnot b hb
    have hb' := List.mem_filter.mp (List.mem_of_mem_take hb)
    obtain ⟨hatable, hpa⟩ := List.mem_filter.mp ha
    by_cases hrow : a ∈ rows
    · -- it was found, but behind the ones that are taken
      have hfound : a ∈ rows.filter p := List.mem_filter.mpr ⟨hrow, hpa⟩
      rw [← List.take_append_drop k (rows.filter p)] at hfound
      have hdrop := (List.mem_append.mp hfound).resolve_left hnot
      have hsorted := h.sorted.filter p
      rw [← List.take_append_drop k (rows.filter p)] at hsorted
      exact (List.pairwise_append.mp hsorted).2.2 b hb a hdrop
    · exact h.closest a hatable hrow b hb'.1

/-- The front of a table that is sorted already. -/
theorem take (hnodup : table.Nodup) (hsorted : table.Pairwise fun a b => distance a ≤ distance b)
    (n : ℕ) : Nearest distance table n (table.take n) where
  subset := List.take_subset n table
  nodup := hnodup.sublist (List.take_sublist n table)
  sorted := hsorted.sublist (List.take_sublist n table)
  length := List.length_take
  closest := by
    intro a ha hnot b hb
    rw [← List.take_append_drop n table] at ha hsorted
    have hdrop := (List.mem_append.mp ha).resolve_left hnot
    exact (List.pairwise_append.mp hsorted).2.2 b hb a hdrop

end Nearest

end CrawlTrove.Ranking
