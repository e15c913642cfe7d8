import CrawlTrove.Relational.Transaction

/-!
# What a transaction may do to the store

`Steps R m` says that whatever `m` commits is related by `R` to the store it
began in. For a reflexive and transitive `R` the claim follows the text of the
transaction: each statement on its own, whatever it returns. `Frame get` is
the relation of stores that agree on `get`, for the tables a transaction does
not touch, and `Shrinks bad` the relation of stores of which the second has no
defect the first did not have, for invariants that hold of each part on its own.
-/

namespace CrawlTrove.Relational.Transaction

universe u

variable {σ ε α β γ : Type u} {R : σ → σ → Prop}

/-- Whatever the transaction commits is related to where it began. -/
def Steps (R : σ → σ → Prop) (m : Transaction σ ε α) : Prop :=
  ∀ ⦃s a s'⦄, m s = .ok (a, s') → R s s'

/-- The two stores agree on what `get` reads. -/
def Frame (get : σ → γ) (s s' : σ) : Prop := get s' = get s

instance (get : σ → γ) : Std.Refl (Frame get) := ⟨fun _ => rfl⟩

instance (get : σ → γ) : IsTrans σ (Frame get) := ⟨fun _ _ _ h h' => Eq.trans h' h⟩

/-- Every defect of the second store is one of the first. -/
def Shrinks {ι : Type*} (bad : ι → σ → Prop) (s s' : σ) : Prop := ∀ i, bad i s' → bad i s

instance {ι : Type*} (bad : ι → σ → Prop) : Std.Refl (Shrinks bad) := ⟨fun _ _ h => h⟩

instance {ι : Type*} (bad : ι → σ → Prop) : IsTrans σ (Shrinks bad) :=
  ⟨fun _ _ _ h h' i hi => h i (h' i hi)⟩

/-- Where nothing was wrong, nothing is. -/
theorem Shrinks.sound {ι : Type*} {bad : ι → σ → Prop} {s s' : σ} (h : Shrinks bad s s')
    (hs : ∀ i, ¬ bad i s) (i : ι) : ¬ bad i s' := fun hi => hs i (h i hi)

namespace Steps

/-- What relates more stores, relates what is committed. -/
theorem mono {R' : σ → σ → Prop} {m : Transaction σ ε α} (hm : Steps R m)
    (h : ∀ s s', R s s' → R' s s') : Steps R' m := fun _ _ _ hs => h _ _ (hm hs)

theorem pure [Std.Refl R] (a : α) : Steps R (pure a : Transaction σ ε α) := by
  intro s b s' h
  obtain ⟨-, rfl⟩ := pure_ok.mp h
  exact refl_of R s

theorem raise (e : ε) : Steps R (raise e : Transaction σ ε α) := by
  intro s a s' h
  exact (raise_ok.mp h).elim

theorem read [Std.Refl R] (f : σ → α) : Steps R (read f : Transaction σ ε α) := by
  intro s a s' h
  obtain ⟨-, rfl⟩ := read_ok.mp h
  exact refl_of R s

theorem exec {f : σ → σ} (h : ∀ s, R s (f s)) : Steps R (exec f : Transaction σ ε PUnit) := by
  intro s a s' hs
  obtain rfl := exec_ok.mp hs
  exact h s

theorem attempt {e : ε} {f : σ → Option σ} (h : ∀ s s', f s = some s' → R s s') :
    Steps R (attempt e f : Transaction σ ε PUnit) := by
  intro s a s' hs
  exact h s s' (attempt_ok.mp hs)

theorem bind [IsTrans σ R] {m : Transaction σ ε α} {k : α → Transaction σ ε β} (hm : Steps R m)
    (hk : ∀ a, Steps R (k a)) : Steps R (m >>= k) := by
  intro s b s'' h
  obtain ⟨a, s', h₁, h₂⟩ := bind_ok.mp h
  exact trans_of R (hm h₁) (hk a h₂)

theorem map {f : α → β} {m : Transaction σ ε α} (hm : Steps R m) : Steps R (f <$> m) := by
  intro s b s' h
  obtain ⟨a, h₁, -⟩ := map_ok.mp h
  exact hm h₁

theorem ite {c : Prop} [Decidable c] {m m' : Transaction σ ε α} (h : Steps R m)
    (h' : Steps R m') : Steps R (if c then m else m') := by
  split
  · exact h
  · exact h'

/-- A reading transaction's result decides what follows. -/
theorem read_bind [Std.Refl R] [IsTrans σ R] {f : σ → α} {k : α → Transaction σ ε β}
    (hk : ∀ a, Steps R (k a)) : Steps R ((Transaction.read f : Transaction σ ε α) >>= k) :=
  (read f).bind hk

/-- A transaction that raises leaves the store alone. -/
theorem committed [Std.Refl R] {m : Transaction σ ε α} (hm : Steps R m) (s : σ) :
    R s (commit m s).2 :=
  commit_snd (refl_of R s) fun _ _ h => hm h

end Steps

end CrawlTrove.Relational.Transaction
