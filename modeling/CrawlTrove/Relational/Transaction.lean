import Mathlib

/-!
# Transactions and labelled traces

A transaction is a computation over a store that may raise. `commit` is its
outermost meaning: a transaction that raises is rolled back and leaves the
store as it was. The `_ok` lemmas read a committed run backwards, one
statement at a time, so a proof about a long body never unfolds the monad.

`Trace` relates two stores by any number of labelled steps whose labels all
satisfy a condition; `Trace.preserves` is the induction every invariant uses.
-/

namespace CrawlTrove.Relational

universe u

/-- A computation over a store of type `σ` that may raise an `ε`. -/
abbrev Transaction (σ ε : Type u) (α : Type u) := StateT σ (Except ε) α

namespace Transaction

variable {σ ε α β : Type u}

/-- What a transaction returns and leaves behind; raising rolls back. -/
def commit (m : Transaction σ ε α) (s : σ) : Except ε α × σ :=
  match m s with
  | .ok (a, s') => (.ok a, s')
  | .error e => (.error e, s)

/-- Run a statement that cannot raise. -/
def exec (f : σ → σ) : Transaction σ ε PUnit := fun s => .ok (⟨⟩, f s)

/-- Run a statement that may fail, raising `e` if it does. -/
def attempt (e : ε) (f : σ → Option σ) : Transaction σ ε PUnit := fun s =>
  match f s with
  | some s' => .ok (⟨⟩, s')
  | none => .error e

/-- Abort the transaction. -/
def raise (e : ε) : Transaction σ ε α := fun _ => .error e

/-- Read the store. -/
def read (f : σ → α) : Transaction σ ε α := fun s => .ok (f s, s)

theorem bind_ok {m : Transaction σ ε α} {k : α → Transaction σ ε β} {s s'' : σ} {b : β} :
    (m >>= k) s = .ok (b, s'') ↔ ∃ a s', m s = .ok (a, s') ∧ k a s' = .ok (b, s'') := by
  show (StateT.bind m k) s = _ ↔ _
  simp only [StateT.bind, bind, Except.bind]
  cases h : m s with
  | error e => simp
  | ok p => obtain ⟨a, s'⟩ := p; simp

theorem pure_ok {s s' : σ} {a b : α} :
    (pure a : Transaction σ ε α) s = .ok (b, s') ↔ a = b ∧ s = s' := by
  show (StateT.pure a : Transaction σ ε α) s = _ ↔ _
  simp [StateT.pure, pure, Except.pure]

theorem map_ok {f : α → β} {m : Transaction σ ε α} {s s' : σ} {b : β} :
    (f <$> m) s = .ok (b, s') ↔ ∃ a, m s = .ok (a, s') ∧ f a = b := by
  show (StateT.map f m) s = _ ↔ _
  simp only [StateT.map, bind, Except.bind, pure, Except.pure]
  cases h : m s with
  | error e => simp
  | ok p =>
      obtain ⟨a, s₁⟩ := p
      simp only [Except.ok.injEq, Prod.mk.injEq]
      constructor
      · rintro ⟨rfl, rfl⟩
        exact ⟨a, ⟨rfl, rfl⟩, rfl⟩
      · rintro ⟨a', ⟨rfl, rfl⟩, rfl⟩
        exact ⟨rfl, rfl⟩

theorem read_ok {f : σ → α} {s s' : σ} {b : α} :
    (read f : Transaction σ ε α) s = .ok (b, s') ↔ f s = b ∧ s = s' := by
  simp [read]

theorem exec_ok {f : σ → σ} {s s' : σ} {b : PUnit} :
    (exec f : Transaction σ ε PUnit) s = .ok (b, s') ↔ f s = s' := by
  simp [exec]

theorem attempt_ok {e : ε} {f : σ → Option σ} {s s' : σ} {b : PUnit} :
    (attempt e f : Transaction σ ε PUnit) s = .ok (b, s') ↔ f s = some s' := by
  unfold attempt
  cases f s <;> simp

@[simp] theorem raise_ok {e : ε} {s s' : σ} {b : α} :
    (raise e : Transaction σ ε α) s = .ok (b, s') ↔ False := by
  simp [raise]

/-- A committed store is either the one the body reached or the old one. -/
theorem commit_snd {m : Transaction σ ε α} {s : σ} {P : σ → Prop} (h₀ : P s)
    (h : ∀ a s', m s = .ok (a, s') → P s') : P (commit m s).2 := by
  unfold commit
  cases hm : m s with
  | error e => exact h₀
  | ok p => exact h p.1 p.2 hm

theorem commit_of_ok {m : Transaction σ ε α} {s s' : σ} {a : α} (h : m s = .ok (a, s')) :
    commit m s = (.ok a, s') := by
  simp [commit, h]

end Transaction

/-! ## Labelled traces -/

section Traces

variable {σ : Type*} {ℓ : Type*}

/-- `s'` is reached from `s` by steps of `R` whose labels satisfy `ok`. -/
def Trace (R : σ → ℓ → σ → Prop) (ok : ℓ → Prop) : σ → σ → Prop :=
  Relation.ReflTransGen fun s s' => ∃ e, ok e ∧ R s e s'

namespace Trace

variable {R : σ → ℓ → σ → Prop} {ok ok' : ℓ → Prop} {s s' s'' : σ}

theorem refl : Trace R ok s s := Relation.ReflTransGen.refl

theorem single {e : ℓ} (he : ok e) (h : R s e s') : Trace R ok s s' :=
  Relation.ReflTransGen.single ⟨e, he, h⟩

theorem trans (h : Trace R ok s s') (h' : Trace R ok s' s'') : Trace R ok s s'' :=
  Relation.ReflTransGen.trans h h'

theorem mono (hok : ∀ e, ok e → ok' e) (h : Trace R ok s s') : Trace R ok' s s' :=
  Relation.ReflTransGen.mono (fun _ _ ⟨e, he, hr⟩ => ⟨e, hok e he, hr⟩) _ _ h

/-- What every permitted step preserves, a trace preserves. -/
theorem preserves {I : σ → Prop} (hstep : ∀ s e s', ok e → R s e s' → I s → I s')
    (h : Trace R ok s s') (hI : I s) : I s' := by
  induction h with
  | refl => exact hI
  | tail _ hlast ih =>
      obtain ⟨e, he, hr⟩ := hlast
      exact hstep _ _ _ he hr ih

end Trace

end Traces

/-! ## Runs of calls -/

section Runs

variable {σ κ : Type*}

/-- The store after a list of calls. -/
def runFrom (step : κ → σ → σ) (s : σ) (calls : List κ) : σ :=
  calls.foldl (fun s c => step c s) s

@[simp] theorem runFrom_nil (step : κ → σ → σ) (s : σ) : runFrom step s [] = s := rfl

@[simp] theorem runFrom_cons (step : κ → σ → σ) (s : σ) (c : κ) (calls : List κ) :
    runFrom step s (c :: calls) = runFrom step (step c s) calls := rfl

theorem runFrom_append (step : κ → σ → σ) (s : σ) (calls calls' : List κ) :
    runFrom step s (calls ++ calls') = runFrom step (runFrom step s calls) calls' := by
  simp [runFrom, List.foldl_append]

/-- Every step of the run meets a condition on the call and the store it finds. -/
def StepsMeet (step : κ → σ → σ) (P : κ → σ → Prop) : σ → List κ → Prop
  | _, [] => True
  | s, c :: calls => P c s ∧ StepsMeet step P (step c s) calls

instance stepsMeetDecidable {step : κ → σ → σ} {P : κ → σ → Prop} [∀ c s, Decidable (P c s)] :
    ∀ s calls, Decidable (StepsMeet step P s calls)
  | _, [] => inferInstanceAs (Decidable True)
  | s, c :: calls =>
      @instDecidableAnd _ _ inferInstance (stepsMeetDecidable (step c s) calls)

theorem stepsMeet_append {step : κ → σ → σ} {P : κ → σ → Prop} {s : σ} {calls calls' : List κ} :
    StepsMeet step P s (calls ++ calls') ↔
      StepsMeet step P s calls ∧ StepsMeet step P (runFrom step s calls) calls' := by
  induction calls generalizing s with
  | nil => simp [StepsMeet]
  | cons c calls ih => simp [StepsMeet, ih, and_assoc]

theorem stepsMeet_of_forall {step : κ → σ → σ} {P : κ → σ → Prop} {s : σ} {calls : List κ}
    (h : ∀ c ∈ calls, ∀ s, P c s) : StepsMeet step P s calls := by
  induction calls generalizing s with
  | nil => trivial
  | cons c calls ih => exact ⟨h c (by simp) s, ih fun c hc => h c (by simp [hc])⟩

/-- Two conditions that agree wherever the invariant holds are met by the same runs. -/
theorem stepsMeet_congr {step : κ → σ → σ} {P Q : κ → σ → Prop} {I : σ → Prop} {calls : List κ}
    (hstep : ∀ c ∈ calls, ∀ s, I s → I (step c s))
    (hiff : ∀ c ∈ calls, ∀ s, I s → (P c s ↔ Q c s)) {s : σ} (hI : I s) :
    StepsMeet step P s calls ↔ StepsMeet step Q s calls := by
  induction calls generalizing s with
  | nil => rfl
  | cons c calls ih =>
      have hrest := ih (fun d hd => hstep d (List.mem_cons_of_mem c hd))
        (fun d hd => hiff d (List.mem_cons_of_mem c hd)) (hstep c List.mem_cons_self s hI)
      exact and_congr (hiff c List.mem_cons_self s hI) hrest

/-- What every step of the run preserves holds at its end. -/
theorem runFrom_invariant {step : κ → σ → σ} {P : κ → σ → Prop} {I : σ → Prop}
    (hstep : ∀ c s, P c s → I s → I (step c s)) {s : σ} {calls : List κ}
    (hP : StepsMeet step P s calls) (hI : I s) : I (runFrom step s calls) := by
  induction calls generalizing s with
  | nil => exact hI
  | cons c calls ih => exact ih hP.2 (hstep c s hP.1 hI)

end Runs

end CrawlTrove.Relational
