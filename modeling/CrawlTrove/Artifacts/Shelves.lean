import Mathlib.Data.List.Basic

/-!
# Shelves

What a map from keys to contents holds after a log of events, newest first: a
content is stored under its key, or what a key holds is erased. When no two
contents were stored under one key, a content stays until its key is erased.
-/

namespace CrawlTrove.Shelves

variable {κ β : Type*}

inductive Event (κ β : Type*) where
  | stored (key : κ) (content : β)
  | erased (key : κ)
  | other

/-- What a key holds. -/
def holds [DecidableEq κ] : List (Event κ β) → κ → Option β
  | [], _ => none
  | .stored key content :: log, k => if k = key then some content else holds log k
  | .erased key :: log, k => if k = key then none else holds log k
  | .other :: log, k => holds log k

/-- A key was given one content only. -/
def Consistent (log : List (Event κ β)) : Prop :=
  ∀ k b b', .stored k b ∈ log → .stored k b' ∈ log → b = b'

theorem Consistent.tail {e : Event κ β} {log : List (Event κ β)} (h : Consistent (e :: log)) :
    Consistent log :=
  fun k b b' hb hb' => h k b b' (List.mem_cons_of_mem e hb) (List.mem_cons_of_mem e hb')

variable [DecidableEq κ]

theorem stored_of_holds {log : List (Event κ β)} {k : κ} {b : β} (h : holds log k = some b) :
    .stored k b ∈ log := by
  induction log with
  | nil => simp [holds] at h
  | cons e log ih =>
      cases e with
      | stored key content =>
          by_cases hk : k = key
          · rw [holds, if_pos hk, Option.some_inj] at h
            rw [hk, h]
            exact List.mem_cons_self
          · rw [holds, if_neg hk] at h
            exact List.mem_cons_of_mem _ (ih h)
      | erased key =>
          by_cases hk : k = key
          · simp [holds, hk] at h
          · rw [holds, if_neg hk] at h
            exact List.mem_cons_of_mem _ (ih h)
      | other => exact List.mem_cons_of_mem _ (ih h)

/-- What was stored and not erased since is held. -/
theorem holds_of_kept {after log : List (Event κ β)} {k : κ} {b : β}
    (hconsistent : Consistent (after ++ .stored k b :: log)) (hkept : .erased k ∉ after) :
    holds (after ++ .stored k b :: log) k = some b := by
  induction after with
  | nil => simp [holds]
  | cons e after ih =>
      simp only [List.mem_cons, not_or] at hkept
      have hrest := ih hconsistent.tail hkept.2
      cases e with
      | stored key content =>
          by_cases hk : k = key
          · have hcontent : content = b := by
              apply hconsistent k
              · rw [hk]
                exact List.mem_cons_self
              · simp
            rw [List.cons_append, holds, if_pos hk, hcontent]
          · rw [List.cons_append, holds, if_neg hk, hrest]
      | erased key =>
          have hk : k ≠ key := fun h => hkept.1 (by rw [h])
          rw [List.cons_append, holds, if_neg hk, hrest]
      | other => exact hrest

end CrawlTrove.Shelves
