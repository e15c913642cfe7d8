import Mathlib

/-!
# A connection with explicit transactions

A connection to a database of tables `σ` as Python's driver for SQLite runs it: a statement
that changes rows opens a transaction if none is open, one that changes the schema does not,
and what a transaction has done is visible on the connection before it is committed. Every
statement may fail; its fate decides whether the transaction stays.

`Inside t m Φ` is the rule for what runs inside of a transaction that has reached `t`, and
`Quiet part m` says that a computation leaves a part of the tables alone.
-/

namespace CrawlTrove.Relational

/-- What happens to a statement. A refused one does not even open a transaction, one that
fails is undone inside of its transaction, and one that aborts takes the transaction along. -/
inductive Fate
  | runs
  | refused
  | fails
  | aborts

structure Connection (σ : Type) where
  committed : σ
  /-- The tables inside of the open transaction. -/
  working : Option σ := none
  /-- The fates of the statements, and how many were issued. -/
  fate : ℕ → Fate := fun _ => .runs
  clock : ℕ := 0

/-- A computation over a connection that may raise. -/
def Session (σ α : Type) := Connection σ → Except Unit α × Connection σ

namespace Session

variable {σ τ α β : Type}

def bind (m : Session σ α) (k : α → Session σ β) : Session σ β := fun c =>
  match m c with
  | (.ok a, c) => k a c
  | (.error e, c) => (.error e, c)

instance : Monad (Session σ) where
  pure a := fun c => (.ok a, c)
  bind := Session.bind

/-- Catch what is raised. -/
def outcome (m : Session σ α) : Session σ (Except Unit α) := fun c => (.ok (m c).1, (m c).2)

/-- What the connection sees. -/
def view (c : Connection σ) : σ := c.working.getD c.committed

/-- A statement that changes rows, or raises where they do not allow it. -/
def execute (f : σ → Option (α × σ)) : Session σ α := fun c =>
  let later := { c with clock := c.clock + 1 }
  match c.fate c.clock with
  | .runs =>
      match f (view c) with
      | some (a, t) => (.ok a, { later with working := some t })
      | none => (.error (), { later with working := some (view c) })
  | .refused => (.error (), later)
  | .fails => (.error (), { later with working := some (view c) })
  | .aborts => (.error (), { later with working := none })

/-- A statement that changes the schema. -/
def define (f : σ → σ) : Session σ Unit := fun c =>
  let later := { c with clock := c.clock + 1 }
  match c.fate c.clock with
  | .runs =>
      match c.working with
      | some t => (.ok (), { later with working := some (f t) })
      | none => (.ok (), { later with committed := f c.committed })
  | .refused => (.error (), later)
  | .fails => (.error (), later)
  | .aborts => (.error (), { later with working := none })

/-- A statement that reads. -/
def query (g : σ → α) : Session σ α := fun c =>
  let later := { c with clock := c.clock + 1 }
  match c.fate c.clock with
  | .runs => (.ok (g (view c)), later)
  | .refused => (.error (), later)
  | .fails => (.error (), later)
  | .aborts => (.error (), { later with working := none })

/-- `BEGIN`, which raises inside of a transaction. -/
def start : Session σ Unit := fun c =>
  let later := { c with clock := c.clock + 1 }
  match c.working, c.fate c.clock with
  | none, .runs => (.ok (), { later with working := some c.committed })
  | _, _ => (.error (), later)

/-- `commit`, which does nothing outside of a transaction. -/
def commit : Session σ Unit := fun c =>
  match c.working with
  | none => (.ok (), c)
  | some t =>
      let later := { c with clock := c.clock + 1 }
      match c.fate c.clock with
      | .runs => (.ok (), { later with committed := t, working := none })
      | .aborts => (.error (), { later with working := none })
      | _ => (.error (), later)

/-- `rollback`, which SQLite always carries out. -/
def rollback : Session σ Unit := fun c => (.ok (), { c with working := none })

/-! ## Runs -/

theorem bind_ok {m : Session σ α} {c c' : Connection σ} {a : α} (h : m c = (.ok a, c'))
    (k : α → Session σ β) : (m >>= k) c = k a c' := by
  show Session.bind m k c = k a c'
  unfold Session.bind
  rw [h]

theorem bind_error {m : Session σ α} {c c' : Connection σ} {e : Unit} (h : m c = (.error e, c'))
    (k : α → Session σ β) : (m >>= k) c = (.error e, c') := by
  show Session.bind m k c = (.error e, c')
  unfold Session.bind
  rw [h]

/-- A transaction begins with what was committed, or `BEGIN` raises. -/
theorem start_cases (c : Connection σ) :
    (∃ c', start c = (.ok (), c') ∧ c'.working = some c.committed ∧
        c'.committed = c.committed) ∨
      ∃ c', start c = (.error (), c') ∧ c'.committed = c.committed := by
  unfold start
  cases hworking : c.working with
  | some t => exact Or.inr ⟨_, rfl, rfl⟩
  | none =>
      cases hfate : c.fate c.clock with
      | runs => exact Or.inl ⟨_, rfl, rfl, rfl⟩
      | refused => exact Or.inr ⟨_, rfl, rfl⟩
      | fails => exact Or.inr ⟨_, rfl, rfl⟩
      | aborts => exact Or.inr ⟨_, rfl, rfl⟩

/-- A commit ends the transaction with what it has reached, or raises. -/
theorem commit_cases {c : Connection σ} {t : σ} (h : c.working = some t) :
    (∃ c', commit c = (.ok (), c') ∧ c'.committed = t ∧ c'.working = none) ∨
      ∃ c', commit c = (.error (), c') ∧ c'.committed = c.committed ∧
        ∀ t', c'.working = some t' → t' = t := by
  unfold commit
  rw [h]
  cases hfate : c.fate c.clock with
  | runs => exact Or.inl ⟨_, rfl, rfl, rfl⟩
  | refused => exact Or.inr ⟨_, rfl, rfl, fun t' ht' => by simpa [h] using ht'.symm⟩
  | fails => exact Or.inr ⟨_, rfl, rfl, fun t' ht' => by simpa [h] using ht'.symm⟩
  | aborts => exact Or.inr ⟨_, rfl, rfl, fun t' ht' => by cases ht'⟩

/-! ## Inside of a transaction -/

/-- What was committed stays, and a computation that returns has reached tables as `Φ` says. -/
def Inside (t : σ) (m : Session σ α) (Φ : α → σ → Prop) : Prop :=
  ∀ c : Connection σ, c.working = some t →
    (m c).2.committed = c.committed ∧
      ∀ a, (m c).1 = .ok a → ∃ t', (m c).2.working = some t' ∧ Φ a t'

namespace Inside

variable {t : σ} {m : Session σ α} {Φ : α → σ → Prop}

theorem mono {Ψ : α → σ → Prop} (h : Inside t m Φ) (hmono : ∀ a t', Φ a t' → Ψ a t') :
    Inside t m Ψ := by
  intro c hc
  obtain ⟨hcommitted, hok⟩ := h c hc
  refine ⟨hcommitted, ?_⟩
  intro a ha
  obtain ⟨t', ht', hΦ⟩ := hok a ha
  exact ⟨t', ht', hmono a t' hΦ⟩

theorem pure {a : α} (h : Φ a t) : Inside t (Pure.pure a : Session σ α) Φ := by
  intro c hc
  refine ⟨rfl, ?_⟩
  intro b hb
  cases hb
  exact ⟨t, hc, h⟩

theorem bind {k : α → Session σ β} {Ψ : β → σ → Prop} (hm : Inside t m Φ)
    (hk : ∀ a t', Φ a t' → Inside t' (k a) Ψ) : Inside t (m >>= k) Ψ := by
  intro c hc
  obtain ⟨hcommitted, hok⟩ := hm c hc
  show (Session.bind m k c).2.committed = c.committed ∧ ∀ b, (Session.bind m k c).1 = .ok b →
    ∃ t', (Session.bind m k c).2.working = some t' ∧ Ψ b t'
  unfold Session.bind
  cases hrun : m c with
  | mk r c' =>
      rw [hrun] at hcommitted hok
      cases r with
      | ok a =>
          obtain ⟨t', ht', hΦ⟩ := hok a rfl
          obtain ⟨hcommitted', hok'⟩ := hk a t' hΦ c' ht'
          exact ⟨hcommitted'.trans hcommitted, hok'⟩
      | error e => exact ⟨hcommitted, fun a ha => by cases ha⟩

theorem execute {f : σ → Option (α × σ)} (h : ∀ a t', f t = some (a, t') → Φ a t') :
    Inside t (execute f) Φ := by
  intro c hc
  have hview : view c = t := by simp [view, hc]
  unfold Session.execute
  rw [hview]
  cases hfate : c.fate c.clock with
  | runs =>
      cases hf : f t with
      | none => exact ⟨rfl, fun a ha => by cases ha⟩
      | some p =>
          refine ⟨rfl, ?_⟩
          intro a ha
          cases ha
          exact ⟨p.2, rfl, h p.1 p.2 hf⟩
  | refused => exact ⟨rfl, fun a ha => by cases ha⟩
  | fails => exact ⟨rfl, fun a ha => by cases ha⟩
  | aborts => exact ⟨rfl, fun a ha => by cases ha⟩

theorem query {g : σ → α} (h : Φ (g t) t) : Inside t (query g) Φ := by
  intro c hc
  have hview : view c = t := by simp [view, hc]
  unfold Session.query
  rw [hview]
  cases hfate : c.fate c.clock with
  | runs =>
      refine ⟨rfl, ?_⟩
      intro a ha
      cases ha
      exact ⟨t, hc, h⟩
  | refused => exact ⟨rfl, fun a ha => by cases ha⟩
  | fails => exact ⟨rfl, fun a ha => by cases ha⟩
  | aborts => exact ⟨rfl, fun a ha => by cases ha⟩

end Inside

/-- A body between `BEGIN` and `commit`. -/
def transaction (body : Session σ α) : Session σ α := do
  start
  let a ← body
  commit
  return a

/-- It commits what the body has reached, or nothing. -/
theorem transaction_cases {body : Session σ α} {Φ : α → σ → Prop} {c : Connection σ}
    (h : Inside c.committed body Φ) :
    (∃ a c', transaction body c = (.ok a, c') ∧ c'.working = none ∧ Φ a c'.committed) ∨
      ∃ c', transaction body c = (.error (), c') ∧ c'.committed = c.committed := by
  unfold transaction
  rcases start_cases c with ⟨c₁, hstart, hworking, hcommitted⟩ | ⟨c₁, hstart, hcommitted⟩
  · rw [bind_ok hstart]
    obtain ⟨hkept, hok⟩ := h c₁ hworking
    rw [hcommitted] at hkept
    cases hbody : body c₁ with
    | mk r c₂ =>
        rw [hbody] at hkept hok
        cases r with
        | error e =>
            rw [bind_error hbody]
            exact Or.inr ⟨c₂, rfl, hkept⟩
        | ok a =>
            rw [bind_ok hbody]
            obtain ⟨t', ht', hΦ⟩ := hok a rfl
            rcases commit_cases ht' with ⟨c₃, hcommit, hnew, hnone⟩ | ⟨c₃, hcommit, hold, -⟩
            · rw [bind_ok hcommit]
              refine Or.inl ⟨a, c₃, rfl, hnone, ?_⟩
              rw [hnew]
              exact hΦ
            · rw [bind_error hcommit]
              exact Or.inr ⟨c₃, rfl, hold.trans hkept⟩
  · rw [bind_error hstart]
    exact Or.inr ⟨c₁, rfl, hcommitted⟩

/-! ## Leaving a part alone -/

/-- The open transaction has not touched a part of the tables. -/
def Still (part : σ → τ) (c : Connection σ) : Prop :=
  ∀ t, c.working = some t → part t = part c.committed

/-- Neither the transaction nor what is committed changes the part. -/
def Quiet (part : σ → τ) (m : Session σ α) : Prop :=
  ∀ c, Still part c → Still part (m c).2 ∧ part (m c).2.committed = part c.committed

theorem part_view {part : σ → τ} {c : Connection σ} (h : Still part c) :
    part (view c) = part c.committed := by
  unfold view
  cases hworking : c.working with
  | none => rfl
  | some t => exact h t hworking

/-- The part looks the same afterwards. -/
theorem Quiet.view_eq {part : σ → τ} {m : Session σ α} {c : Connection σ} (h : Quiet part m)
    (hc : Still part c) : part (view (m c).2) = part (view c) := by
  obtain ⟨hstill, hpart⟩ := h c hc
  rw [part_view hstill, part_view hc, hpart]

namespace Quiet

variable {part : σ → τ} {m : Session σ α}

theorem pure (a : α) : Quiet part (Pure.pure a : Session σ α) := by
  intro c hc
  exact ⟨hc, rfl⟩

theorem bind {k : α → Session σ β} (hm : Quiet part m) (hk : ∀ a, Quiet part (k a)) :
    Quiet part (m >>= k) := by
  intro c hc
  obtain ⟨hstill, hpart⟩ := hm c hc
  cases hrun : m c with
  | mk r c' =>
      rw [hrun] at hstill hpart
      cases r with
      | ok a =>
          rw [bind_ok hrun]
          obtain ⟨hstill', hpart'⟩ := hk a c' hstill
          exact ⟨hstill', hpart'.trans hpart⟩
      | error e =>
          rw [bind_error hrun]
          exact ⟨hstill, hpart⟩

theorem query (g : σ → α) : Quiet part (query g) := by
  intro c hc
  unfold Session.query
  cases c.fate c.clock with
  | runs => exact ⟨hc, rfl⟩
  | refused => exact ⟨hc, rfl⟩
  | fails => exact ⟨hc, rfl⟩
  | aborts => exact ⟨fun t ht => by (cases ht), rfl⟩

theorem execute {f : σ → Option (α × σ)} (h : ∀ t a t', f t = some (a, t') → part t' = part t) :
    Quiet part (execute f) := by
  intro c hc
  have hview := part_view hc
  unfold Session.execute
  cases c.fate c.clock with
  | runs =>
      cases hf : f (view c) with
      | none =>
          refine ⟨fun t ht => ?_, rfl⟩
          cases ht
          exact hview
      | some p =>
          refine ⟨fun t ht => ?_, rfl⟩
          cases ht
          exact (h _ p.1 p.2 hf).trans hview
  | refused => exact ⟨hc, rfl⟩
  | fails =>
      refine ⟨fun t ht => ?_, rfl⟩
      cases ht
      exact hview
  | aborts => exact ⟨fun t ht => by (cases ht), rfl⟩

theorem define {f : σ → σ} (h : ∀ t, part (f t) = part t) : Quiet part (define f) := by
  intro c hc
  unfold Session.define
  cases c.fate c.clock with
  | runs =>
      cases hworking : c.working with
      | none =>
          refine ⟨fun t ht => ?_, h _⟩
          cases ht
      | some t =>
          refine ⟨fun t' ht' => ?_, rfl⟩
          cases ht'
          exact (h t).trans (hc t hworking)
  | refused => exact ⟨hc, rfl⟩
  | fails => exact ⟨hc, rfl⟩
  | aborts => exact ⟨fun t ht => by (cases ht), rfl⟩

theorem commit : Quiet part (commit : Session σ Unit) := by
  intro c hc
  cases hworking : c.working with
  | none =>
      have hcommit : Session.commit c = (.ok (), c) := by
        unfold Session.commit
        rw [hworking]
      rw [hcommit]
      exact ⟨hc, rfl⟩
  | some t =>
      rcases commit_cases hworking with ⟨c', hcommit, hnew, hnone⟩ | ⟨c', hcommit, hold, hsame⟩
      · rw [hcommit]
        refine ⟨fun t' ht' => ?_, ?_⟩
        · rw [hnone] at ht'
          cases ht'
        · rw [hnew]
          exact hc t hworking
      · rw [hcommit]
        refine ⟨fun t' ht' => ?_, by rw [hold]⟩
        rw [hsame t' ht', hold]
        exact hc t hworking

end Quiet

end Session

end CrawlTrove.Relational
