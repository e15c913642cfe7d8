import CrawlTrove.Relational.Transaction

/-!
# Running a transaction forwards

The `_run` equations evaluate a transaction statement by statement from the
store it begins in, raising or not; they are the counterpart of the `_ok`
lemmas, which read a committed run backwards. Comparing two transactions needs
them: what one refuses the other may raise.
-/

namespace CrawlTrove.Relational.Transaction

universe u

variable {σ ε α β : Type u} {s s' : σ} {e : ε}

theorem bind_run (m : Transaction σ ε α) (k : α → Transaction σ ε β) (s : σ) :
    (m >>= k) s =
      match m s with
      | .ok (a, s') => k a s'
      | .error e => .error e := by
  show (StateT.bind m k) s = _
  simp only [StateT.bind, bind, Except.bind]
  cases m s <;> rfl

theorem bind_run_ok {m : Transaction σ ε α} {k : α → Transaction σ ε β} {a : α}
    (h : m s = .ok (a, s')) : (m >>= k) s = k a s' := by
  rw [bind_run, h]

theorem bind_run_error {m : Transaction σ ε α} {k : α → Transaction σ ε β}
    (h : m s = .error e) : (m >>= k) s = .error e := by
  rw [bind_run, h]

theorem map_run_ok {m : Transaction σ ε α} {f : α → β} {a : α} (h : m s = .ok (a, s')) :
    (f <$> m) s = .ok (f a, s') :=
  map_ok.mpr ⟨a, h, rfl⟩

theorem map_run_error {m : Transaction σ ε α} {f : α → β} (h : m s = .error e) :
    (f <$> m) s = .error e := by
  show (StateT.map f m) s = _
  simp only [StateT.map, bind, Except.bind, h]

@[simp] theorem pure_run (a : α) (s : σ) : (pure a : Transaction σ ε α) s = .ok (a, s) := rfl

@[simp] theorem raise_run (e : ε) (s : σ) : (raise e : Transaction σ ε α) s = .error e := rfl

@[simp] theorem read_bind_run (f : σ → α) (k : α → Transaction σ ε β) (s : σ) :
    ((read f : Transaction σ ε α) >>= k) s = k (f s) s := rfl

@[simp] theorem exec_bind_run (f : σ → σ) (k : PUnit → Transaction σ ε β) (s : σ) :
    (exec f >>= k) s = k ⟨⟩ (f s) := rfl

theorem attempt_bind_run_some {f : σ → Option σ} {k : PUnit → Transaction σ ε β}
    (h : f s = some s') : (attempt e f >>= k) s = k ⟨⟩ s' := by
  refine bind_run_ok ?_
  simp [attempt, h]

theorem attempt_bind_run_none {f : σ → Option σ} {k : PUnit → Transaction σ ε β}
    (h : f s = none) : (attempt e f >>= k) s = .error e := by
  refine bind_run_error ?_
  simp [attempt, h]

/-- A transaction that raises is rolled back. -/
theorem commit_of_error {m : Transaction σ ε α} (h : m s = .error e) :
    commit m s = (.error e, s) := by
  simp [commit, h]

end CrawlTrove.Relational.Transaction
