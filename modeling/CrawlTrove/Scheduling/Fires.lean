import CrawlTrove.Scheduling.Definitions

/-!
# Scheduled fires

A batch is lost from the first launch that raises on, and the overlap guard
looks for a run that another loop may not have inserted yet. `fires_kept` says
that nothing else goes wrong.
-/

namespace CrawlTrove.Scheduling

open Relational

/-! ## What should hold -/

/-- Every definition a loop has claimed has been tried once, in turn, or waits
in the batch of the current tick. -/
def Once (s : System) : Prop := ∀ loop, s.claimed loop = s.attempted loop ++ s.queue loop

/-- A scheduled run of the definition is in flight. -/
def Run.fires (id : ℕ) (r : Run) : Bool :=
  r.jobId = some id && r.trigger = .schedule && r.inFlight

/-- No definition has two scheduled runs in flight. -/
def Alone (s : System) : Prop := ∀ id, (s.runs.filter (Run.fires id)).length ≤ 1

/-- No launch raises while others of its batch wait. -/
def Finishes (e : Event) (s : System) : Prop :=
  match e with
  | .launch loop fate => ∀ d rest, s.queue loop = d :: rest → s.raises d fate = true → rest = []
  | _ => True

/-- No definition is claimed, free of runs, that waits in the batch of another
loop. -/
def Apart (e : Event) (s : System) : Prop :=
  match e with
  | .claim loop now locked failsAt => s.queue loop = [] →
      ∀ d ∈ s.handled now locked failsAt, s.active d.id = false →
        ∀ other, other ≠ loop → ∀ d' ∈ s.queue other, d'.id ≠ d.id
  | _ => True

/-! ## Attempts -/

theorem once_start (jobs : Table Definition) : Once (start jobs) := fun _ => rfl

/-- An event keeps the account of every loop exactly if it does not cut a batch
short. -/
theorem once_step_iff {e : Event} {s : System} (h : Once s) : Once (step e s) ↔ Finishes e s := by
  cases e with
  | claim loop now locked failsAt =>
      refine iff_of_true ?_ trivial
      unfold step
      dsimp only
      cases hqueue : s.queue loop with
      | cons d rest => exact h
      | nil =>
          intro other
          dsimp only
          by_cases hother : other = loop
          · rw [hother, Function.update_self, Function.update_self, h loop, hqueue, List.append_nil]
          · rw [Function.update_of_ne hother, Function.update_of_ne hother]
            exact h other
  | launch loop fate =>
      unfold step Finishes
      dsimp only
      cases hqueue : s.queue loop with
      | nil => exact iff_of_true h (fun d rest heq => by cases heq)
      | cons d rest =>
          have hloop : s.claimed loop = s.attempted loop ++ d :: rest := hqueue ▸ h loop
          constructor
          · intro hstep d' rest' heq hraises
            obtain ⟨rfl, rfl⟩ := List.cons.inj heq
            have hafter := hstep loop
            dsimp only at hafter
            rw [Function.update_self, Function.update_self, if_pos hraises, hloop,
              List.append_nil] at hafter
            exact (List.cons.inj (List.append_cancel_left hafter)).2
          · intro hfinishes other
            dsimp only
            by_cases hother : other = loop
            · rw [hother, Function.update_self, Function.update_self, hloop, List.append_assoc]
              by_cases hraises : s.raises d fate = true
              · rw [if_pos hraises, hfinishes d rest rfl hraises]
                rfl
              · rw [if_neg hraises]
                rfl
            · rw [Function.update_of_ne hother, Function.update_of_ne hother]
              exact h other
  | runJob d fate => exact iff_of_true h trivial
  | begin run => exact iff_of_true h trivial
  | finish run status => exact iff_of_true h trivial
  | edit jobs => exact iff_of_true h trivial

/-- So does a run, in every state it passes. -/
theorem once_run_iff {s : System} (h : Once s) (events : List Event) :
    StepsMeet step Finishes s events ↔
      ∀ earlier later, events = earlier ++ later → Once (runFrom step s earlier) := by
  induction events generalizing s with
  | nil =>
      refine iff_of_true trivial fun earlier later heq => ?_
      rw [(List.append_eq_nil_iff.mp heq.symm).1]
      exact h
  | cons e events ih =>
      constructor
      · rintro ⟨hfirst, hrest⟩ earlier later heq
        cases earlier with
        | nil => exact h
        | cons e' earlier =>
            obtain ⟨rfl, rfl⟩ := List.cons.inj heq
            exact (ih ((once_step_iff h).mpr hfirst)).mp hrest earlier later rfl
      · intro hall
        have hfirst : Once (step e s) := hall [e] events rfl
        refine ⟨(once_step_iff h).mp hfirst, (ih hfirst).mpr fun earlier later heq => ?_⟩
        exact hall (e :: earlier) later (by rw [heq]; rfl)

/-! ## Runs in flight -/

/-- What keeps scheduled runs apart: a definition waits in one batch at most, and
only while it has no scheduled run. -/
structure Separate (s : System) : Prop where
  batch : ∀ loop, (s.queue loop).Pairwise fun d d' => d.id ≠ d'.id
  batches : ∀ loop other, loop ≠ other → ∀ d ∈ s.queue loop, ∀ d' ∈ s.queue other, d.id ≠ d'.id
  waiting : ∀ loop, ∀ d ∈ s.queue loop, s.runs.filter (Run.fires d.id) = []
  alone : Alone s

theorem separate_start (jobs : Table Definition) : Separate (start jobs) where
  batch _ := List.Pairwise.nil
  batches _ _ _ _ hd := by cases hd
  waiting _ _ hd := by cases hd
  alone _ := Nat.zero_le 1

/-- Runs of which none is new or in flight again. -/
theorem Separate.of_runs {s : System} (h : Separate s) {runs : List Run}
    (hruns : ∀ id, (runs.filter (Run.fires id)).length ≤ (s.runs.filter (Run.fires id)).length)
    (jobs : Table Definition) : Separate { s with runs, jobs } where
  batch := h.batch
  batches := h.batches
  waiting loop d hd := by
    have hnone := hruns d.id
    rw [h.waiting loop d hd] at hnone
    exact List.eq_nil_of_length_eq_zero (Nat.le_zero.mp hnone)
  alone id := (hruns id).trans (h.alone id)

theorem length_filter_map_le {p : Run → Bool} {f : Run → Run} (hf : ∀ r, p (f r) = true → p r = true)
    (runs : List Run) : ((runs.map f).filter p).length ≤ (runs.filter p).length := by
  rw [List.filter_map, List.length_map]
  exact (List.monotone_filter_right runs fun r hr => hf r hr).length_le

/-- A launch starts at most one run, of its own definition. -/
theorem launchJob_fires (s : System) (d : Definition) (trigger : Trigger) (fate : Fate) (id : ℕ) :
    ((s.launchJob d trigger fate).filter (Run.fires id)).length ≤
      (s.runs.filter (Run.fires id)).length +
        if trigger = .schedule ∧ d.id = id then 1 else 0 := by
  unfold System.launchJob
  split
  · rw [List.filter_append, List.length_append]
    refine Nat.add_le_add_left ?_ _
    by_cases hfires : trigger = .schedule ∧ d.id = id
    · rw [if_pos hfires]
      exact List.length_filter_le _ _
    · rw [if_neg hfires, List.filter_eq_nil_iff.mpr]
      · exact Nat.zero_le 0
      · intro r hr
        rw [List.mem_singleton.mp hr]
        intro hr
        simp only [Run.fires, Bool.and_eq_true, decide_eq_true_eq, Option.some.injEq] at hr
        exact hfires ⟨hr.1.2, hr.1.1⟩
  · exact Nat.le_add_right _ _

/-- The guard finds nothing, so nothing is in flight. -/
theorem fires_of_not_active {s : System} {id : ℕ} (h : s.active id = false) :
    s.runs.filter (Run.fires id) = [] := by
  rw [List.filter_eq_nil_iff]
  intro r hr hfires
  have hnone := List.any_eq_false.mp h r hr
  simp only [Run.fires, Bool.and_eq_true, decide_eq_true_eq] at hfires
  simp [hfires.1.1, hfires.2] at hnone

/-- A batch holds a definition once: it comes from a table. -/
theorem handled_distinct (s : System) (now : Time) (locked : ℕ → Bool) (failsAt : Option ℕ) :
    (s.handled now locked failsAt).Pairwise fun d d' => d.id ≠ d'.id := by
  have hdue : (s.dueRows now locked).Pairwise fun d d' => d.id ≠ d'.id := by
    have hselect : (s.jobs.select (·.due now locked)).Pairwise fun d d' => d.id ≠ d'.id := by
      refine (s.jobs.unique.filter _).imp fun {d d'} hclash hid => ?_
      have hsame : Clashes d d' = true := decide_eq_true hid
      rw [hsame] at hclash
      cases hclash
    have hsorted := ((List.perm_insertionSort Definition.notAfter _).pairwise_iff
      fun hne => Ne.symm hne).mpr hselect
    exact hsorted.sublist (List.take_sublist _ _)
  unfold System.handled
  split
  · exact hdue
  · exact hdue.sublist (List.take_sublist _ _)

theorem Separate.step {e : Event} {s : System} (h : Separate s) (hapart : Apart e s) :
    Separate (step e s) := by
  cases e with
  | claim loop now locked failsAt =>
      unfold Scheduling.step
      dsimp only
      cases hqueue : s.queue loop with
      | cons d rest => exact h
      | nil =>
          have hapart := hapart hqueue
          have hlaunch : ∀ d ∈ (s.claimDueJobs now locked failsAt).1,
              d ∈ s.handled now locked failsAt ∧ s.active d.id = false := by
            intro d hd
            obtain ⟨hmem, hfree⟩ := List.mem_filter.mp hd
            exact ⟨hmem, by simpa using hfree⟩
          refine ⟨?_, ?_, ?_, h.alone⟩
          · intro other
            dsimp only
            by_cases hother : other = loop
            · rw [hother, Function.update_self]
              exact (handled_distinct s now locked failsAt).filter _
            · rw [Function.update_of_ne hother]
              exact h.batch other
          · intro loop₁ loop₂ hne d hd d' hd'
            dsimp only at hd hd'
            by_cases h₁ : loop₁ = loop
            · have h₂ : loop₂ ≠ loop := fun heq => hne (h₁.trans heq.symm)
              rw [h₁, Function.update_self] at hd
              rw [Function.update_of_ne h₂] at hd'
              exact (hapart d (hlaunch d hd).1 (hlaunch d hd).2 loop₂ h₂ d' hd').symm
            · rw [Function.update_of_ne h₁] at hd
              by_cases h₂ : loop₂ = loop
              · rw [h₂, Function.update_self] at hd'
                exact hapart d' (hlaunch d' hd').1 (hlaunch d' hd').2 loop₁ h₁ d hd
              · rw [Function.update_of_ne h₂] at hd'
                exact h.batches loop₁ loop₂ hne d hd d' hd'
          · intro other d hd
            dsimp only at hd ⊢
            by_cases hother : other = loop
            · rw [hother, Function.update_self] at hd
              exact fires_of_not_active (hlaunch d hd).2
            · rw [Function.update_of_ne hother] at hd
              exact h.waiting other d hd
  | launch loop fate =>
      unfold Scheduling.step
      dsimp only
      cases hqueue : s.queue loop with
      | nil => exact h
      | cons d rest =>
          have hd : d ∈ s.queue loop := hqueue ▸ List.mem_cons_self
          -- What waits afterwards waited before, and is not the launched definition.
          have hleft : ∀ other, ∀ d' ∈ Function.update s.queue loop
              (if s.raises d fate = true then [] else rest) other,
                d' ∈ s.queue other ∧ d.id ≠ d'.id := by
            intro other d' hd'
            by_cases hother : other = loop
            · rw [hother, Function.update_self] at hd'
              split at hd'
              · cases hd'
              · rw [hother, hqueue]
                have hbatch := h.batch loop
                rw [hqueue] at hbatch
                exact ⟨List.mem_cons_of_mem d hd', (List.pairwise_cons.mp hbatch).1 d' hd'⟩
            · rw [Function.update_of_ne hother] at hd'
              exact ⟨hd', h.batches loop other (fun heq => hother heq.symm) d hd d' hd'⟩
          refine ⟨?_, ?_, ?_, ?_⟩
          · intro other
            dsimp only
            by_cases hother : other = loop
            · rw [hother, Function.update_self]
              split
              · exact List.Pairwise.nil
              · have hbatch := h.batch loop
                rw [hqueue] at hbatch
                exact (List.pairwise_cons.mp hbatch).2
            · rw [Function.update_of_ne hother]
              exact h.batch other
          · intro loop₁ loop₂ hne d₁ hd₁ d₂ hd₂
            exact h.batches loop₁ loop₂ hne d₁ (hleft loop₁ d₁ hd₁).1 d₂ (hleft loop₂ d₂ hd₂).1
          · intro other d' hd'
            obtain ⟨hmem, hne⟩ := hleft other d' hd'
            have hcount := launchJob_fires s d .schedule fate d'.id
            rw [h.waiting other d' hmem, if_neg fun hid => hne hid.2] at hcount
            exact List.eq_nil_of_length_eq_zero (Nat.le_zero.mp hcount)
          · intro id
            refine (launchJob_fires s d .schedule fate id).trans ?_
            by_cases hid : d.id = id
            · rw [← hid, h.waiting loop d hd, if_pos ⟨rfl, rfl⟩]
              exact le_rfl
            · rw [if_neg fun heq => hid heq.2]
              exact h.alone id
  | runJob d fate =>
      refine h.of_runs (fun id => ?_) s.jobs
      have hcount := launchJob_fires s d .manual fate id
      rwa [if_neg fun heq => by cases heq.1] at hcount
  | begin run =>
      refine h.of_runs (fun id => length_filter_map_le (fun r hr => ?_) s.runs) s.jobs
      split at hr
      · rename_i hpending
        simp only [Bool.and_eq_true, decide_eq_true_eq] at hpending
        simpa [Run.fires, Run.inFlight, hpending.2] using hr
      · exact hr
  | finish run status =>
      refine h.of_runs (fun id => length_filter_map_le (fun r hr => ?_) s.runs) s.jobs
      split at hr
      · simp [Run.fires, Run.inFlight] at hr
      · exact hr
  | edit jobs =>
      refine h.of_runs (fun id => length_filter_map_le (fun r hr => ?_) s.runs) jobs
      split at hr
      · simp [Run.fires] at hr
      · exact hr

/-- Claimed definitions are tried exactly once in every state reached if and
only if no launch that raises cuts a batch short; and no two scheduled runs of a
definition are ever in flight if no loop claims what waits in the batch of
another. -/
theorem fires_kept (jobs : Table Definition) (events : List Event) :
    (StepsMeet step Finishes (start jobs) events ↔
      ∀ earlier later, events = earlier ++ later → Once (runFrom step (start jobs) earlier)) ∧
    (StepsMeet step Apart (start jobs) events →
      ∀ earlier later, events = earlier ++ later → Alone (runFrom step (start jobs) earlier)) := by
  refine ⟨once_run_iff (once_start jobs) events, fun hapart earlier later heq => ?_⟩
  rw [heq] at hapart
  exact (runFrom_invariant (fun _ _ hapart h => Separate.step h hapart)
    (stepsMeet_append.mp hapart).1 (separate_start jobs)).alone

/-! ## Samples -/

/-- A crawl and a scrape, both due every hour. -/
def hourly : Table Definition :=
  ⟨[{ id := 1, kind := "crawl", targetUrl := some "https://example.com", schedule := some "1h"
      nextRunAt := some 0 },
    { id := 2, targetUrl := some "https://example.com/a", schedule := some "@hourly"
      nextRunAt := some 0 }],
    by decide⟩

/-- The launch of the crawl raises. -/
def refusedCrawl : List Event := [.claim 0 0 (fun _ => false) none, .launch 0 .fails]

/-- An hour later a second loop claims what the first has not launched yet. -/
def slowBatch : List Event :=
  [.claim 0 0 (fun _ => false) none, .claim 1 (seconds 3600) (fun _ => false) none,
    .launch 0 .succeeds, .launch 1 .succeeds]

/-- In the first run the scrape is never tried, in the second two runs of the
crawl are in flight. -/
theorem fires_missed :
    (¬ ∀ jobs events, Once (runFrom step (start jobs) events)) ∧
      ¬ ∀ jobs events, Alone (runFrom step (start jobs) events) := by
  constructor
  · intro h
    have hlost : (runFrom step (start hourly) refusedCrawl).claimed 0 ≠
        (runFrom step (start hourly) refusedCrawl).attempted 0 ++
          (runFrom step (start hourly) refusedCrawl).queue 0 := by decide
    exact hlost (h hourly refusedCrawl 0)
  · intro h
    have htwice : ((runFrom step (start hourly) slowBatch).runs.filter (Run.fires 1)).length = 2 := by
      decide
    have halone := h hourly slowBatch 1
    omega

end CrawlTrove.Scheduling
