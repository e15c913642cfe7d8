import CrawlTrove.Protocol.Claim

/-!
# How a claim ends

`claim_task` picks one task and then looks at its origin and at the budget of
its job. `claimTask_cases` lists the ends of a claim that has picked a task, as
conditions on the store it found.
-/

namespace CrawlTrove

open Relational Transaction

open Origins (origin?_eq_some)

open Lifecycle Protocol

namespace Claiming

/-- The row of the origin, or the one a claim inserts. -/
def originFor (now : Time) (key : String) (s : Store) : Origin :=
  (s.origin? key).getD { originKey := key, nextRequestAt := now }

/-- The origin refuses requests for now: its circuit is open, or cooling down,
or the next request is not due. -/
def Blocked (now : Time) (o : Origin) : Prop := Ahead now o ∨ now < o.nextRequestAt

instance (now : Time) (o : Origin) : Decidable (Blocked now o) :=
  inferInstanceAs (Decidable (_ ∨ _))

/-- Which budget has nothing left. -/
def spentReason (j : Job) : String :=
  if j.remainingBytes ≤ 0 then "byte_budget_exhausted" else "artifact_budget_exhausted"

/-- The bytes and artifact bytes a claim reserves. -/
def allowances (t : Task) (j : Job) : ℤ × ℤ :=
  (min j.remainingBytes (responseCap t.normalizedUrl), min j.remainingArtifacts inlineArtifactCap)

/-- A claim that picked a task may insert the row of its origin or let a probe
through: no origin refuses more or less for it. -/
structure Opened (now : Time) (s s₁ : Store) : Prop where
  same : ∃ T, s₁ = { s with origins := T }
  blocked : ∀ key, Blocked now (originFor now key s₁) ↔ Blocked now (originFor now key s)

variable {x : Txn} {capabilities : List String} {t : Task} {j : Job} {s : Store}

theorem ensureOrigin_opened (now : Time) (key : String) (s : Store) :
    Opened now s (s.ensureOrigin now key) ∧
      (s.ensureOrigin now key).origin? key = some (originFor now key s) := by
  cases hfound : s.origin? key with
  | some o =>
      rw [ensureOrigin_of_some now hfound]
      refine ⟨⟨⟨s.origins, rfl⟩, fun _ => Iff.rfl⟩, ?_⟩
      rw [hfound, originFor, hfound, Option.getD_some]
  | none =>
      obtain ⟨-, -, -, -, hrow⟩ := ensureOrigin_of_none now hfound
      have hmine : originFor now key s = { originKey := key, nextRequestAt := now } := by
        rw [originFor, hfound, Option.getD_none]
      refine ⟨⟨?_, fun other => ?_⟩, by rw [hrow, hmine]⟩
      · unfold Store.ensureOrigin
        split
        · exact ⟨_, rfl⟩
        · exact ⟨s.origins, rfl⟩
      · by_cases hother : other = key
        · rw [hother, hmine, originFor, hrow, Option.getD_some]
        · have hsame : (s.ensureOrigin now key).origin? other = s.origin? other := by
            unfold Store.ensureOrigin
            split
            · rename_i T hT
              refine Option.ext fun o => ?_
              rw [origin?_eq_some, origin?_eq_some, Table.mem_of_insert? hT]
              constructor
              · rintro ⟨hmem | rfl, hkey⟩
                · exact ⟨hmem, hkey⟩
                · exact absurd hkey.symm hother
              · rintro ⟨hmem, hkey⟩
                exact ⟨Or.inl hmem, hkey⟩
            · rfl
          rw [originFor, hsame]
          rfl

/-- A probe is let through only once nothing lies ahead. -/
theorem blocked_halfOpen {now : Time} {o : Origin} (hclear : ¬ Ahead now o) :
    Blocked now { o with circuitState := .halfOpen } ↔ Blocked now o := by
  have hprobe : ¬ Ahead now { o with circuitState := .halfOpen } := by
    rintro ⟨u, hu, hahead⟩
    have hcooling : o.cooldownUntil = some u := hu
    apply hclear
    unfold Ahead Origin.blockedUntil
    rw [hcooling]
    split
    · cases o.circuitOpenUntil with
      | none => exact ⟨u, rfl, hahead⟩
      | some v => exact ⟨max u v, rfl, lt_max_of_lt_left hahead⟩
    · exact ⟨u, rfl, hahead⟩
  exact or_congr (iff_of_false hprobe hclear) Iff.rfl

/-- A circuit that is open lets a probe through. -/
theorem halfOpen_opened {now : Time} {key : String} {s₁ : Store} (h : Opened now s s₁)
    (hfound : s₁.origin? key = some (originFor now key s))
    (hclear : ¬ Ahead now (originFor now key s)) : Opened now s (halfOpen key s₁) := by
  have hrow : ∀ other, (halfOpen key s₁).origin? other = (s₁.origin? other).map fun o =>
      if o.originKey = key then { o with circuitState := .halfOpen } else o := by
    intro other
    refine Option.ext fun o => ?_
    simp only [origin?_eq_some, halfOpen, Store.updateOrigins, Table.mem_update,
      decide_eq_true_eq, Option.map_eq_some_iff]
    constructor
    · rintro ⟨⟨o', ho', rfl⟩, hkey⟩
      refine ⟨o', ⟨ho', ?_⟩, rfl⟩
      rw [← hkey]
      split
      · rfl
      · rfl
    · rintro ⟨o', ⟨ho', hkey⟩, rfl⟩
      refine ⟨⟨o', ho', rfl⟩, ?_⟩
      rw [← hkey]
      split
      · rfl
      · rfl
  refine ⟨?_, fun other => ?_⟩
  · obtain ⟨T, rfl⟩ := h.same
    exact ⟨_, rfl⟩
  · by_cases hother : other = key
    · have hmine : originFor now key (halfOpen key s₁) =
          { originFor now key s with circuitState := .halfOpen } := by
        rw [originFor, hrow, hfound, Option.map_some, Option.getD_some,
          if_pos (origin?_eq_some.mp hfound).2]
      rw [hother, hmine, blocked_halfOpen hclear]
    · rw [← h.blocked other, originFor, hrow]
      cases ho : s₁.origin? other with
      | none => rw [originFor, ho]; rfl
      | some o =>
          have hkey : o.originKey ≠ key := by
            rw [(origin?_eq_some.mp ho).2]
            exact hother
          rw [originFor, ho, Option.map_some, Option.getD_some, Option.getD_some, if_neg hkey]

/-- The job's row does not depend on the origins. -/
theorem Opened.tables {now : Time} {s₁ : Store} (h : Opened now s s₁) :
    s₁.tasks = s.tasks ∧ s₁.jobs = s.jobs ∧ s₁.originLeases = s.originLeases ∧
      s₁.attempts = s.attempts := by
  obtain ⟨T, rfl⟩ := h.same
  exact ⟨rfl, rfl, rfl, rfl⟩

/-- The ends of a claim that has picked a task: the task is put off, the origin
is leased, the job has nothing left, or the lease is granted. -/
theorem claimTask_cases (workerId : String) (hc : candidate x capabilities s = some (t, j)) :
    ∃ s₁, Opened x.now s s₁ ∧
      ((Blocked x.now (originFor x.now t.originKey s) ∧ ∃ u, x.now < u ∧
          claimTask x workerId capabilities s = .ok (none, deferTask t.id u s₁)) ∨
        ¬ Blocked x.now (originFor x.now t.originKey s) ∧
          ((s.originLeased t.originKey = true ∧
              claimTask x workerId capabilities s = .ok (none, s₁)) ∨
            s.originLeased t.originKey = false ∧
              ((¬ Affordable j ∧ claimTask x workerId capabilities s =
                  .ok (none, drainUnleased x.now t.jobId (spentReason j) s₁)) ∨
                Affordable j ∧ claimTask x workerId capabilities s =
                  (some <$> grantLease x workerId t j (allowances t j).1 (allowances t j).2)
                    s₁))) := by
  obtain ⟨hensured, hfound⟩ := ensureOrigin_opened x.now t.originKey s
  rw [claimTask_run, hc]
  dsimp only
  rw [claimLocked_run hfound]
  rcases filter_ahead (originFor x.now t.originKey s) x.now with
    ⟨u, hfilter, hblocked, hahead⟩ | ⟨hfilter, hclear⟩
  · refine ⟨_, hensured, Or.inl ⟨Or.inl ⟨u, hblocked, hahead⟩, u, hahead, ?_⟩⟩
    rw [hfilter]
  · rw [hfilter]
    dsimp only
    generalize hs₁ : (if (originFor x.now t.originKey s).circuitState = .open' then
      halfOpen t.originKey (s.ensureOrigin x.now t.originKey)
      else s.ensureOrigin x.now t.originKey) = s₁
    have hopened : Opened x.now s s₁ := by
      rw [← hs₁]
      split
      · exact halfOpen_opened hensured hfound hclear
      · exact hensured
    refine ⟨s₁, hopened, ?_⟩
    have hleased : s₁.originLeased t.originKey = s.originLeased t.originKey := by
      unfold Store.originLeased
      rw [hopened.tables.2.2.1]
    unfold claimPaced
    by_cases hpaced : x.now < (originFor x.now t.originKey s).nextRequestAt
    · rw [if_pos hpaced]
      exact Or.inl ⟨Or.inr hpaced, _, hpaced, rfl⟩
    · rw [if_neg hpaced, read_bind_run, hleased]
      refine Or.inr ⟨fun hblocked => hblocked.elim hclear hpaced, ?_⟩
      cases s.originLeased t.originKey with
      | true => exact Or.inl ⟨rfl, rfl⟩
      | false =>
          refine Or.inr ⟨rfl, ?_⟩
          rw [if_neg (by simp)]
          by_cases haffordable : Affordable j
          · refine Or.inr ⟨haffordable, ?_⟩
            rw [if_neg fun hspent =>
              (not_affordable_iff (responseCap_ge t.normalizedUrl)).mp hspent haffordable]
            rfl
          · refine Or.inl ⟨haffordable, ?_⟩
            rw [if_pos ((not_affordable_iff (responseCap_ge t.normalizedUrl)).mpr haffordable),
              exec_bind_run, pure_run]
            have hbytes : min j.remainingBytes (responseCap t.normalizedUrl) ≤ 0 ↔
                j.remainingBytes ≤ 0 := by
              rw [← not_lt, ← not_lt, bytes_pos_iff (responseCap_ge t.normalizedUrl)]
            unfold spentReason
            simp only [hbytes]

/-! ## As requests -/

variable {url : UrlIdentity} {workerId : String}

theorem step_claim : step url ⟨x, .claimTask workerId capabilities⟩ s =
    (commit (claimTask x workerId capabilities) s).2 := by
  show (commit (Option.isSome <$> claimTask x workerId capabilities) s).2 = _
  cases h : claimTask x workerId capabilities s with
  | error e => rw [commit_of_error (map_run_error h), commit_of_error h]
  | ok p => rw [commit_of_ok (map_run_ok h), commit_of_ok h]

theorem reply_claim : reply url ⟨x, .claimTask workerId capabilities⟩ s =
    (commit (claimTask x workerId capabilities) s).1.map Option.isSome := by
  show (commit (Option.isSome <$> claimTask x workerId capabilities) s).1 = _
  cases h : claimTask x workerId capabilities s with
  | error e => rw [commit_of_error (map_run_error h), commit_of_error h]; rfl
  | ok p => rw [commit_of_ok (map_run_ok h), commit_of_ok h]; rfl

end Claiming

end CrawlTrove
