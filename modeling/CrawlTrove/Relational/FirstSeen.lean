import Mathlib

/-!
# First occurrences

De-duplication by a key: of the elements of a list with the same key only the
first is kept, and none whose key has been seen before.
-/

namespace CrawlTrove.FirstSeen

variable {α κ : Type*} [DecidableEq κ] (key : α → κ)

/-- The elements whose key is neither among the seen ones nor that of an earlier
element. -/
def firstsBy (seen : List κ) : List α → List α
  | [] => []
  | x :: xs =>
      if key x ∈ seen then firstsBy seen xs else x :: firstsBy (key x :: seen) xs

variable {key}

@[simp] theorem firstsBy_nil (seen : List κ) : firstsBy key seen [] = [] := rfl

theorem firstsBy_cons_of_mem {seen : List κ} {x : α} (xs : List α) (h : key x ∈ seen) :
    firstsBy key seen (x :: xs) = firstsBy key seen xs := if_pos h

theorem firstsBy_cons_of_notMem {seen : List κ} {x : α} (xs : List α) (h : key x ∉ seen) :
    firstsBy key seen (x :: xs) = x :: firstsBy key (key x :: seen) xs := if_neg h

/-- Only which keys have been seen matters. -/
theorem firstsBy_congr {seen seen' : List κ} (xs : List α) (h : ∀ k, k ∈ seen ↔ k ∈ seen') :
    firstsBy key seen xs = firstsBy key seen' xs := by
  induction xs generalizing seen seen' with
  | nil => rfl
  | cons x xs ih =>
      by_cases hx : key x ∈ seen
      · rw [firstsBy_cons_of_mem xs hx, firstsBy_cons_of_mem xs ((h _).mp hx), ih h]
      · rw [firstsBy_cons_of_notMem xs hx,
          firstsBy_cons_of_notMem xs fun hx' => hx ((h _).mpr hx')]
        congr 1
        apply ih
        intro k
        simp only [List.mem_cons, h]

/-- Keys that do not occur in the list have no influence. -/
theorem firstsBy_append_seen (seen old : List κ) (xs : List α)
    (h : ∀ x ∈ xs, key x ∉ old) :
    firstsBy key (seen ++ old) xs = firstsBy key seen xs := by
  induction xs generalizing seen with
  | nil => rfl
  | cons x xs ih =>
      have hold : key x ∉ old := h x List.mem_cons_self
      have hrest := fun seen => ih seen fun y hy => h y (List.mem_cons_of_mem _ hy)
      by_cases hx : key x ∈ seen
      · rw [firstsBy_cons_of_mem xs hx, firstsBy_cons_of_mem xs (List.mem_append_left _ hx), hrest]
      · have happ : key x ∉ seen ++ old := by simp [hx, hold]
        rw [firstsBy_cons_of_notMem xs hx, firstsBy_cons_of_notMem xs happ]
        exact congrArg (x :: ·) (hrest (key x :: seen))

theorem firstsBy_sublist (seen : List κ) (xs : List α) :
    (firstsBy key seen xs).Sublist xs := by
  induction xs generalizing seen with
  | nil => exact List.Sublist.refl _
  | cons x xs ih =>
      by_cases hx : key x ∈ seen
      · rw [firstsBy_cons_of_mem xs hx]
        exact (ih seen).cons x
      · rw [firstsBy_cons_of_notMem xs hx]
        exact (ih _).cons_cons x

theorem mem_of_mem_firstsBy {seen : List κ} {xs : List α} {x : α}
    (h : x ∈ firstsBy key seen xs) : x ∈ xs :=
  (firstsBy_sublist seen xs).subset h

/-- The keys that are kept: those of the list that had not been seen. -/
theorem mem_keys_firstsBy (seen : List κ) (xs : List α) (k : κ) :
    k ∈ (firstsBy key seen xs).map key ↔ k ∈ xs.map key ∧ k ∉ seen := by
  induction xs generalizing seen with
  | nil => simp
  | cons x xs ih =>
      by_cases hx : key x ∈ seen
      · rw [firstsBy_cons_of_mem xs hx, ih, List.map_cons, List.mem_cons]
        constructor
        · rintro ⟨hmem, hk⟩
          exact ⟨.inr hmem, hk⟩
        · rintro ⟨rfl | hmem, hk⟩
          · exact absurd hx hk
          · exact ⟨hmem, hk⟩
      · rw [firstsBy_cons_of_notMem xs hx, List.map_cons, List.map_cons, List.mem_cons,
          List.mem_cons, ih, List.mem_cons]
        constructor
        · rintro (rfl | ⟨hmem, hk⟩)
          · exact ⟨.inl rfl, hx⟩
          · exact ⟨.inr hmem, fun h => hk (.inr h)⟩
        · rintro ⟨hmem, hk⟩
          by_cases heq : k = key x
          · exact .inl heq
          · refine .inr ⟨hmem.resolve_left heq, ?_⟩
            rintro (h | h)
            · exact heq h
            · exact hk h

theorem nodup_keys_firstsBy (seen : List κ) (xs : List α) :
    ((firstsBy key seen xs).map key).Nodup := by
  induction xs generalizing seen with
  | nil => exact List.nodup_nil
  | cons x xs ih =>
      by_cases hx : key x ∈ seen
      · rw [firstsBy_cons_of_mem xs hx]
        exact ih seen
      · rw [firstsBy_cons_of_notMem xs hx, List.map_cons, List.nodup_cons]
        refine ⟨?_, ih _⟩
        intro hmem
        exact ((mem_keys_firstsBy _ _ _).mp hmem).2 List.mem_cons_self

/-- Every key of the list that had not been seen is kept with some element. -/
theorem exists_mem_firstsBy {seen : List κ} {xs : List α} {x : α} (hx : x ∈ xs)
    (hnew : key x ∉ seen) : ∃ y ∈ firstsBy key seen xs, key y = key x := by
  have hkey := (mem_keys_firstsBy seen xs (key x)).mpr ⟨List.mem_map_of_mem hx, hnew⟩
  exact List.mem_map.mp hkey

/-- A second list goes on where the first has ended. -/
theorem firstsBy_append (seen : List κ) (xs ys : List α) :
    firstsBy key seen (xs ++ ys) =
      firstsBy key seen xs ++ firstsBy key (xs.map key ++ seen) ys := by
  induction xs generalizing seen with
  | nil => rfl
  | cons x xs ih =>
      by_cases hx : key x ∈ seen
      · rw [List.cons_append, firstsBy_cons_of_mem _ hx, firstsBy_cons_of_mem _ hx, ih]
        congr 1
        apply firstsBy_congr
        intro k
        simp only [List.map_cons, List.cons_append, List.mem_cons, List.mem_append]
        constructor
        · exact .inr
        · rintro (rfl | h)
          · exact .inr hx
          · exact h
      · rw [List.cons_append, firstsBy_cons_of_notMem _ hx, firstsBy_cons_of_notMem _ hx, ih,
          List.cons_append]
        congr 2
        apply firstsBy_congr
        intro k
        simp only [List.map_cons, List.cons_append, List.mem_cons, List.mem_append]
        tauto

/-- Lists without a common key can be treated apart. -/
theorem firstsBy_flatten {xss : List (List α)}
    (h : xss.Pairwise fun xs ys => ∀ x ∈ xs, ∀ y ∈ ys, key x ≠ key y) :
    firstsBy key [] xss.flatten = (xss.map (firstsBy key [])).flatten := by
  induction xss with
  | nil => rfl
  | cons xs xss ih =>
      rw [List.pairwise_cons] at h
      rw [List.flatten_cons, firstsBy_append, List.map_cons, List.flatten_cons, ← ih h.2]
      congr 1
      rw [List.append_nil, ← List.nil_append (xs.map key)]
      apply firstsBy_append_seen
      intro y hy hmem
      obtain ⟨ys, hys, hy⟩ := List.mem_flatten.mp hy
      obtain ⟨x, hx, heq⟩ := List.mem_map.mp hmem
      exact h.1 ys hys x hx y hy heq

end CrawlTrove.FirstSeen
