import Mathlib

/-!
# Processes that raise and are observed

A computation over a state that may raise, and emits events as it goes: what it did to
the state and the events it emitted stay when it raises, as they do outside a
transaction. `outcome` catches whatever is raised and `settle` raises it again, so
handlers and `finally` blocks are ordinary code between the two.

`Emits m Φ` says that from every state `m` ends and emits events as `Φ` says; the rules
below follow the text of a process.
-/

namespace CrawlTrove.Effects

/-- How it ends, what it emits, and the state it leaves. -/
def Process (σ ω ε α : Type) := σ → Except ε α × List ω × σ

/-- A call to code outside, which emits nothing itself. -/
abbrev Call (σ ε α : Type) := σ → Except ε α × σ

namespace Process

variable {σ ω ε α β : Type}

def bind (m : Process σ ω ε α) (k : α → Process σ ω ε β) : Process σ ω ε β := fun s =>
  match m s with
  | (.ok a, L, s') => let (r, L', s'') := k a s'; (r, L ++ L', s'')
  | (.error e, L, s') => (.error e, L, s')

instance : Monad (Process σ ω ε) where
  pure a := fun s => (.ok a, [], s)
  bind := Process.bind

def raise (e : ε) : Process σ ω ε α := fun s => (.error e, [], s)

def emit (L : List ω) : Process σ ω ε Unit := fun s => (.ok (), L, s)

/-- Call code outside and note how the call ended. -/
def ask (call : Call σ ε α) (note : Except ε α → List ω := fun _ => []) : Process σ ω ε α :=
  fun s => let (r, s') := call s; (r, note r, s')

/-- Catch what is raised. -/
def outcome (m : Process σ ω ε α) : Process σ ω ε (Except ε α) := fun s =>
  let (r, L, s') := m s
  (.ok r, L, s')

/-- Raise again what was caught. -/
def settle : Except ε α → Process σ ω ε α
  | .ok a => pure a
  | .error e => raise e

/-- The exception as the caller sees it. -/
def translate (f : ε → ε) (m : Process σ ω ε α) : Process σ ω ε α := fun s =>
  let (r, L, s') := m s
  (r.mapError f, L, s')

/-! ## What a process emits -/

def Emits (m : Process σ ω ε α) (Φ : Except ε α → List ω → Prop) : Prop :=
  ∀ s, Φ (m s).1 (m s).2.1

namespace Emits

variable {m : Process σ ω ε α} {Φ Φ' : Except ε α → List ω → Prop}

theorem mono (hm : Emits m Φ) (h : ∀ r L, Φ r L → Φ' r L) : Emits m Φ' := by
  intro s
  exact h _ _ (hm s)

theorem pure {a : α} (h : Φ (.ok a) []) : Emits (Pure.pure a : Process σ ω ε α) Φ := by
  intro s
  exact h

theorem raise {e : ε} (h : Φ (.error e) []) : Emits (raise e : Process σ ω ε α) Φ := by
  intro s
  exact h

theorem emit {L : List ω} {Φ : Except ε Unit → List ω → Prop} (h : Φ (.ok ()) L) :
    Emits (emit L : Process σ ω ε Unit) Φ := by
  intro s
  exact h

theorem ask {call : Call σ ε α} {note : Except ε α → List ω} (h : ∀ r, Φ r (note r)) :
    Emits (ask call note) Φ := by
  intro s
  exact h (call s).1

theorem outcome {Φ : Except ε (Except ε α) → List ω → Prop}
    (hm : Emits m fun r L => Φ (.ok r) L) : Emits (outcome m) Φ := by
  intro s
  exact hm s

theorem settle {r : Except ε α} (h : Φ r []) : Emits (settle r : Process σ ω ε α) Φ := by
  intro s
  cases r with
  | ok a => exact h
  | error e => exact h

theorem translate {f : ε → ε} (hm : Emits m fun r L => Φ (r.mapError f) L) :
    Emits (translate f m) Φ := by
  intro s
  exact hm s

/-- What follows a process adds its events to those emitted before. -/
theorem bind {k : α → Process σ ω ε β} {Ψ : Except ε β → List ω → Prop} (hm : Emits m Φ)
    (hk : ∀ a L, Φ (.ok a) L → Emits (k a) fun r L' => Ψ r (L ++ L'))
    (he : ∀ e L, Φ (.error e) L → Ψ (.error e) L) : Emits (m >>= k) Ψ := by
  intro s
  show Ψ (Process.bind m k s).1 (Process.bind m k s).2.1
  have hs := hm s
  unfold Process.bind
  cases hrun : m s with
  | mk r rest =>
      obtain ⟨L, s'⟩ := rest
      rw [hrun] at hs
      cases r with
      | ok a => exact hk a L hs s'
      | error e => exact he e L hs

end Emits

/-- Two continuations that agree on whatever the process returns. -/
theorem bind_congr_of {m : Process σ ω ε α} {k k' : α → Process σ ω ε β}
    (h : Emits m fun r _ => ∀ a, r = .ok a → k a = k' a) : m >>= k = m >>= k' := by
  funext s
  show Process.bind m k s = Process.bind m k' s
  have hs := h s
  unfold Process.bind
  cases hrun : m s with
  | mk r rest =>
      obtain ⟨L, s'⟩ := rest
      rw [hrun] at hs
      cases r with
      | ok a => simp only [hs a rfl]
      | error e => rfl

end Process

end CrawlTrove.Effects
