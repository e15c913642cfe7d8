import CrawlTrove.Relational.Transaction

/-!
# The life of a checkpointed run

A run writes checkpoints while it works, saves its artifact when it has finished,
and only then deletes its checkpoint. The process may crash between any two of these
and restores the run from the checkpoint it finds. What a checkpoint holds is left
open. A checkpoint that is not written is no move. The JSON and the Markdown of an
artifact are saved in one move, and `prune` (`app/storage.py`) is none.
-/

namespace CrawlTrove.Checkpoints

open Relational

/-- Where the process is with the run. -/
inductive Stage
  | absent
  /-- Restored, and not yet resumed. -/
  | interrupted
  | working
  /-- The artifact is to be saved. -/
  | finished
  /-- The checkpoint is to be deleted. -/
  | saved
  | ended
deriving DecidableEq

/-- The stage, the checkpoint on the disk, all that have been written there, and how
often the artifact has been saved. -/
structure Life (α : Type*) where
  stage : Stage
  disk : Option α
  written : List α
  artifacts : ℕ

/-- What happens to the run. -/
inductive Move
  | work | write | finish | save | saveFails | delete | deleteFails | crash | restore | resume
deriving DecidableEq

variable {α : Type*}

/-- What each move does, and when it can happen. -/
inductive Step : Move → Life α → Life α → Prop
  | work (l : Life α) : Step .work l l
  | write (l : Life α) (a : α) (h : l.stage = .working) :
      Step .write l { l with disk := some a, written := l.written ++ [a] }
  | finish (l : Life α) (h : l.stage = .working) : Step .finish l { l with stage := .finished }
  | save (l : Life α) (h : l.stage = .finished) :
      Step .save l { l with stage := .saved, artifacts := l.artifacts + 1 }
  | saveFails (l : Life α) (h : l.stage = .finished) : Step .saveFails l { l with stage := .ended }
  | delete (l : Life α) (h : l.stage = .saved) :
      Step .delete l { l with stage := .ended, disk := none }
  | deleteFails (l : Life α) (h : l.stage = .saved) : Step .deleteFails l { l with stage := .ended }
  | crash (l : Life α) : Step .crash l { l with stage := .absent }
  | restore (l : Life α) (a : α) (h : l.stage = .absent) (hdisk : l.disk = some a) :
      Step .restore l { l with stage := .interrupted }
  | resume (l : Life α) (h : l.stage = .interrupted) : Step .resume l { l with stage := .working }

/-! ## What every run keeps -/

/-- As long as no artifact has been saved, the disk has the last checkpoint. -/
structure Kept (l : Life α) : Prop where
  saved : l.stage = .saved → 0 < l.artifacts
  disk : l.artifacts = 0 → l.disk = l.written.getLast?

theorem kept_step {m : Move} {l l' : Life α} (hstep : Step m l l') (h : Kept l) : Kept l' := by
  cases hstep with
  | work => exact h
  | write _ a hstage => exact ⟨fun hsaved => h.saved hsaved, fun _ => by simp⟩
  | finish _ hstage => exact ⟨by simp, h.disk⟩
  | save _ hstage => exact ⟨fun _ => Nat.succ_pos _, by simp⟩
  | saveFails _ hstage => exact ⟨by simp, h.disk⟩
  | delete _ hstage =>
      refine ⟨by simp, fun hnone => ?_⟩
      exact absurd hnone (h.saved hstage).ne'
  | deleteFails _ hstage => exact ⟨by simp, h.disk⟩
  | crash => exact ⟨by simp, h.disk⟩
  | restore _ a hstage hdisk => exact ⟨by simp, h.disk⟩
  | resume _ hstage => exact ⟨by simp, h.disk⟩

/-! ## What a run keeps that deletes its checkpoint with its artifact -/

/-- Nothing comes between the artifact and the deletion of the checkpoint. -/
def Careful (m : Move) (l : Life α) : Prop :=
  m ≠ .deleteFails ∧ (m = .crash → ¬ l.stage = .saved)

/-- The run is over, and whatever the disk has belongs to no artifact. -/
def Settled (l : Life α) : Prop := l.artifacts = 0 ∨ l.artifacts = 1 ∧ l.disk = none

/-- Up to its artifact a run has none, and then it has one and no checkpoint. -/
def Once (l : Life α) : Prop :=
  match l.stage with
  | .interrupted | .working | .finished => l.artifacts = 0
  | .saved => l.artifacts = 1
  | .absent | .ended => Settled l

theorem once_step {m : Move} {l l' : Life α} (hstep : Step m l l') (hcareful : Careful m l)
    (h : Once l) : Once l' := by
  cases hstep with
  | work => exact h
  | write _ a hstage =>
      simp only [Once, hstage] at h ⊢
      exact h
  | finish _ hstage =>
      simp only [Once, hstage] at h ⊢
      exact h
  | save _ hstage =>
      simp only [Once, hstage] at h ⊢
      rw [h]
  | saveFails _ hstage =>
      simp only [Once, hstage] at h ⊢
      exact .inl h
  | delete _ hstage =>
      simp only [Once, hstage] at h ⊢
      exact .inr ⟨h, rfl⟩
  | deleteFails _ hstage => exact absurd rfl hcareful.1
  | crash =>
      have hstage := hcareful.2 rfl
      simp only [Once] at h ⊢
      cases hs : l.stage with
      | absent =>
          simp only [hs] at h
          exact h
      | interrupted => exact .inl (by simpa only [hs] using h)
      | working => exact .inl (by simpa only [hs] using h)
      | finished => exact .inl (by simpa only [hs] using h)
      | saved => exact absurd hs hstage
      | ended =>
          simp only [hs] at h
          exact h
  | restore _ a hstage hdisk =>
      simp only [Once, hstage] at h ⊢
      rcases h with hnone | ⟨-, hempty⟩
      · exact hnone
      · exact absurd (hdisk.symm.trans hempty) (by simp)
  | resume _ hstage =>
      simp only [Once, hstage] at h ⊢
      exact h

theorem Once.le {l : Life α} (h : Once l) : l.artifacts ≤ 1 := by
  unfold Once Settled at h
  cases hs : l.stage <;> simp only [hs] at h <;> omega

/-- After its artifact the run is not restored, and there is nothing to restore it
from. -/
theorem Once.settled {l : Life α} (h : Once l) (hsaved : 0 < l.artifacts) :
    l.stage ≠ .interrupted ∧ l.stage ≠ .working ∧ (l.stage ≠ .saved → l.disk = none) := by
  unfold Once Settled at h
  refine ⟨?_, ?_, ?_⟩
  · intro hs
    simp only [hs] at h
    omega
  · intro hs
    simp only [hs] at h
    omega
  · intro hne
    cases hs : l.stage with
    | absent | ended =>
        simp only [hs] at h
        exact (h.resolve_left hsaved.ne').2
    | interrupted | working | finished =>
        simp only [hs] at h
        omega
    | saved => exact absurd hs hne

/-! ## Machines with such a life -/

section Machines

variable {σ κ : Type*}

/-- Every step of the machine is a move of its life, and a careful one is when the
step is. -/
structure Checkpointed (step : κ → σ → σ) (life : σ → Life α) (careful : κ → σ → Prop) where
  /-- What the machine keeps. -/
  sound : σ → Prop
  moves : ∀ c s, sound s →
    ∃ m, Step m (life s) (life (step c s)) ∧ (careful c s → Careful m (life s))
  keeps : ∀ c s, sound s → sound (step c s)

variable {step : κ → σ → σ} {life : σ → Life α} {careful : κ → σ → Prop}

theorem Checkpointed.sound_run (M : Checkpointed step life careful) {s : σ} (hs : M.sound s)
    (calls : List κ) : M.sound (runFrom step s calls) := by
  induction calls generalizing s with
  | nil => exact hs
  | cons c calls ih => exact ih (M.keeps c s hs)

theorem Checkpointed.kept_run (M : Checkpointed step life careful) {s : σ} (hs : M.sound s)
    (h : Kept (life s)) (calls : List κ) : Kept (life (runFrom step s calls)) := by
  induction calls generalizing s with
  | nil => exact h
  | cons c calls ih =>
      obtain ⟨m, hmove, -⟩ := M.moves c s hs
      exact ih (M.keeps c s hs) (kept_step hmove h)

theorem Checkpointed.once_run (M : Checkpointed step life careful) {s : σ} (hs : M.sound s)
    (h : Once (life s)) {calls : List κ} (hcareful : StepsMeet step careful s calls) :
    Once (life (runFrom step s calls)) := by
  induction calls generalizing s with
  | nil => exact h
  | cons c calls ih =>
      obtain ⟨m, hmove, hm⟩ := M.moves c s hs
      exact ih (M.keeps c s hs) (once_step hmove (hm hcareful.1) h) hcareful.2

end Machines

end CrawlTrove.Checkpoints
