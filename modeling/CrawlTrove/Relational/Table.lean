import Mathlib

/-!
# Relational tables with unique keys

A table is a list of rows together with the proof that no two of them violate
a uniqueness constraint, so a state that breaks a primary key cannot be built.
The constraint is a symmetric clash test on the unique columns: a table with
one primary key clashes on equality, a table with several unique constraints
on their disjunction.

Statements of SQL map to `update`, `delete`, `select` and `insert?`; the last
fails on a unique violation. Sums over a table (`total`) come with the
equation that says how each statement changes them, which is all that
counter invariants need.
-/

namespace CrawlTrove.Relational

universe u v

/-- The unique columns of a row type and when two values of them violate a
uniqueness constraint. -/
class Keyed (ρ : Type u) where
  Key : Type v
  key : ρ → Key
  clash : Key → Key → Bool
  clash_refl : ∀ k, clash k k = true
  clash_symm : ∀ k k', clash k k' = clash k' k

/-- Two rows may not stand in one table. -/
def Clashes {ρ : Type u} [Keyed.{u, v} ρ] (a b : ρ) : Bool :=
  Keyed.clash (Keyed.key a) (Keyed.key b)

/-- A list of rows that satisfies its uniqueness constraints. -/
structure Table (ρ : Type u) [Keyed.{u, v} ρ] where
  rows : List ρ
  unique : rows.Pairwise fun a b => Clashes a b = false

namespace Table

variable {ρ : Type u} [Keyed.{u, v} ρ]

instance : Membership ρ (Table ρ) where
  mem T r := r ∈ T.rows

theorem mem_def {T : Table ρ} {r : ρ} : r ∈ T ↔ r ∈ T.rows := Iff.rfl

@[ext] theorem ext {T U : Table ρ} (h : T.rows = U.rows) : T = U := by
  cases T; cases U; simp_all

instance [DecidableEq ρ] : DecidableEq (Table ρ) := fun T U =>
  decidable_of_iff (T.rows = U.rows) ⟨Table.ext, fun h => h ▸ rfl⟩

instance {p : ρ → Prop} [DecidablePred p] {T : Table ρ} : Decidable (∃ r ∈ T, p r) :=
  inferInstanceAs (Decidable (∃ r ∈ T.rows, p r))

instance {p : ρ → Prop} [DecidablePred p] {T : Table ρ} : Decidable (∀ r ∈ T, p r) :=
  inferInstanceAs (Decidable (∀ r ∈ T.rows, p r))

def empty : Table ρ := ⟨[], List.Pairwise.nil⟩

instance : Inhabited (Table ρ) := ⟨empty⟩

/-- `SELECT * ... WHERE p`. -/
def select (p : ρ → Bool) (T : Table ρ) : List ρ := T.rows.filter p

/-- `SELECT ... WHERE p LIMIT 1`, for conditions on a unique column. -/
def find? (p : ρ → Bool) (T : Table ρ) : Option ρ := T.rows.find? p

/-- `SELECT EXISTS (... WHERE p)`. -/
def any (p : ρ → Bool) (T : Table ρ) : Bool := T.rows.any p

/-- `SELECT count(*) ... WHERE p`. -/
def count (p : ρ → Bool) (T : Table ρ) : ℤ := ((T.select p).length : ℤ)

private theorem pairwise_update {p : ρ → Bool} {f : ρ → ρ}
    (hf : ∀ r, Keyed.key (f r) = Keyed.key r) {rows : List ρ}
    (h : rows.Pairwise fun a b => Clashes a b = false) :
    (rows.map fun r => if p r then f r else r).Pairwise fun a b => Clashes a b = false := by
  have hkey : ∀ r, Keyed.key (if p r then f r else r) = Keyed.key r := by
    intro r; split <;> simp [hf]
  rw [List.pairwise_map]
  refine h.imp fun {a b} hab => ?_
  simpa only [Clashes, hkey] using hab

/-- `UPDATE ... SET f WHERE p`. The columns `f` writes are not unique ones. -/
def update (p : ρ → Bool) (f : ρ → ρ) (T : Table ρ)
    (hf : ∀ r, Keyed.key (f r) = Keyed.key r := by intro _; rfl) : Table ρ where
  rows := T.rows.map fun r => if p r then f r else r
  unique := pairwise_update hf T.unique

/-- `DELETE ... WHERE p`. -/
def delete (p : ρ → Bool) (T : Table ρ) : Table ρ where
  rows := T.rows.filter fun r => !p r
  unique := T.unique.filter _

private theorem pairwise_concat {r : ρ} {rows : List ρ}
    (h : rows.Pairwise fun a b => Clashes a b = false)
    (hr : ∀ x ∈ rows, Clashes x r = false) :
    (rows ++ [r]).Pairwise fun a b => Clashes a b = false := by
  rw [List.pairwise_append]
  exact ⟨h, List.pairwise_singleton _ _, by simpa using hr⟩

/-- `INSERT`: fails with `none` on a unique violation. -/
def insert? (r : ρ) (T : Table ρ) : Option (Table ρ) :=
  if h : ∀ x ∈ T.rows, Clashes x r = false then
    some ⟨T.rows ++ [r], pairwise_concat T.unique h⟩
  else none

/-- The sum of a weight over all rows. -/
def total {M : Type*} [AddCommGroup M] (w : ρ → M) (T : Table ρ) : M :=
  (T.rows.map w).sum

/-! ## Membership -/

@[simp] theorem mem_empty {r : ρ} : r ∈ (empty : Table ρ) ↔ False := by
  simp [mem_def, empty]

theorem mem_select {p : ρ → Bool} {T : Table ρ} {r : ρ} :
    r ∈ T.select p ↔ r ∈ T ∧ p r = true := List.mem_filter

@[simp] theorem mem_update {p : ρ → Bool} {f : ρ → ρ} {T : Table ρ} {hf} {r : ρ} :
    r ∈ T.update p f hf ↔ ∃ x ∈ T, (if p x then f x else x) = r := by
  simp [mem_def, update]

/-- The rewritten row. -/
theorem mem_update_row {p : ρ → Bool} {f : ρ → ρ} {T : Table ρ} {r : ρ}
    (hf : ∀ r, Keyed.key (f r) = Keyed.key r) (hr : r ∈ T) (hp : p r = true) :
    f r ∈ T.update p f hf :=
  mem_update.mpr ⟨r, hr, by rw [if_pos hp]⟩

/-- A row the statement does not select. -/
theorem mem_update_other {p : ρ → Bool} {f : ρ → ρ} {T : Table ρ} {r : ρ}
    (hf : ∀ r, Keyed.key (f r) = Keyed.key r) (hr : r ∈ T) (hp : p r = false) :
    r ∈ T.update p f hf :=
  mem_update.mpr ⟨r, hr, by rw [if_neg (by simp [hp])]⟩

@[simp] theorem mem_delete {p : ρ → Bool} {T : Table ρ} {r : ρ} :
    r ∈ T.delete p ↔ r ∈ T ∧ p r = false := by
  simp [mem_def, delete]

theorem insert?_eq_some {T T' : Table ρ} {r : ρ} :
    T.insert? r = some T' ↔
      (∀ x ∈ T, Clashes x r = false) ∧ T'.rows = T.rows ++ [r] := by
  unfold insert?
  split
  · rename_i h
    constructor
    · intro e; cases e; exact ⟨h, rfl⟩
    · intro e; exact congrArg some (Table.ext e.2.symm)
  · rename_i h
    simp only [reduceCtorEq, false_iff, not_and]
    intro h'; exact absurd h' h

theorem mem_of_insert? {T T' : Table ρ} {r x : ρ} (h : T.insert? r = some T') :
    x ∈ T' ↔ x ∈ T ∨ x = r := by
  rw [mem_def, (insert?_eq_some.mp h).2]
  simp [mem_def]

theorem insert?_fresh {T T' : Table ρ} {r : ρ} (h : T.insert? r = some T') :
    ∀ x ∈ T, Clashes x r = false := (insert?_eq_some.mp h).1

theorem insert?_eq_none {T : Table ρ} {r : ρ} :
    T.insert? r = none ↔ ∃ x ∈ T, Clashes x r = true := by
  unfold insert?
  split
  · rename_i h
    simp only [reduceCtorEq, false_iff, not_exists, not_and, Bool.not_eq_true]
    exact h
  · rename_i h
    simpa [mem_def] using h

/-- Rows that clash are the same row. -/
theorem eq_of_clash {T : Table ρ} {a b : ρ} (ha : a ∈ T) (hb : b ∈ T)
    (h : Clashes a b = true) : a = b := by
  by_contra hne
  have hsymm : Std.Symm fun a b : ρ => Clashes a b = false :=
    ⟨fun x y hxy => by simpa [Clashes, Keyed.clash_symm (Keyed.key y)] using hxy⟩
  have := T.unique.forall ha hb hne
  simp_all

theorem nodup_select (p : ρ → Bool) (T : Table ρ) : (T.select p).Nodup := by
  refine List.Pairwise.filter p (T.unique.imp fun {a b} hab heq => ?_)
  rw [heq, Clashes, Keyed.clash_refl] at hab
  cases hab

/-- A condition that only one row can meet selects that row alone. -/
theorem select_eq_singleton {p : ρ → Bool} {T : Table ρ} {r : ρ} (hr : r ∈ T)
    (hp : p r = true) (hu : ∀ x ∈ T, p x = true → x = r) : T.select p = [r] := by
  have hall : ∀ x ∈ T.select p, x = r := fun x hx =>
    hu x (mem_select.mp hx).1 (mem_select.mp hx).2
  have hmem : r ∈ T.select p := mem_select.mpr ⟨hr, hp⟩
  have hpair : (T.select p).Pairwise fun a b => Clashes a b = false := T.unique.filter _
  match hs : T.select p with
  | [] => simp [hs] at hmem
  | [x] => rw [hs] at hall; rw [hall x (by simp)]
  | x :: y :: _ =>
      rw [hs] at hall hpair
      have hx := hall x (by simp)
      have hy := hall y (by simp)
      have hclash := (List.pairwise_cons.mp hpair).1 y (by simp)
      rw [hx, hy] at hclash
      simp [Clashes, Keyed.clash_refl] at hclash

theorem find?_eq_some {p : ρ → Bool} {T : Table ρ} {r : ρ} (h : T.find? p = some r) :
    r ∈ T ∧ p r = true :=
  ⟨List.mem_of_find?_eq_some h, List.find?_some h⟩

theorem find?_eq_of_mem {p : ρ → Bool} {T : Table ρ} {r : ρ} (hr : r ∈ T)
    (hp : p r = true) (hu : ∀ x ∈ T, p x = true → x = r) : T.find? p = some r := by
  match h : T.find? p with
  | none => exact absurd hp (by simpa using List.find?_eq_none.mp h r hr)
  | some x =>
      obtain ⟨hx, hpx⟩ := find?_eq_some h
      rw [hu x hx hpx]

theorem find?_eq_none {p : ρ → Bool} {T : Table ρ} :
    T.find? p = none ↔ ∀ r ∈ T, p r = false := by
  simp [find?, mem_def]

theorem any_eq_true {p : ρ → Bool} {T : Table ρ} :
    T.any p = true ↔ ∃ r ∈ T, p r = true := by
  simp [any, mem_def]

theorem any_eq_false {p : ρ → Bool} {T : Table ρ} :
    T.any p = false ↔ ∀ r ∈ T, p r = false := by
  simp [any, mem_def]

/-- Looking up a row after an update. -/
theorem find?_update {p q : ρ → Bool} {f : ρ → ρ} {T : Table ρ} {hf} :
    (T.update p f hf).find? q =
      (T.find? fun r => q (if p r then f r else r)).map fun r => if p r then f r else r := by
  simp only [find?, update, List.find?_map]
  rfl

theorem any_update {p q : ρ → Bool} {f : ρ → ρ} {T : Table ρ} {hf} :
    (T.update p f hf).any q = T.any fun r => q (if p r then f r else r) := by
  simp only [any, update, List.any_map]
  rfl

/-! ## Composing statements -/

theorem update_update {p : ρ → Bool} {f g : ρ → ρ} {T : Table ρ} {hf hg}
    (hp : ∀ r, p (f r) = p r) :
    (T.update p f hf).update p g hg =
      T.update p (fun r => g (f r)) (fun r => (hg _).trans (hf r)) := by
  apply Table.ext
  simp only [update, List.map_map]
  refine List.map_congr_left fun r _ => ?_
  by_cases h : p r = true <;> simp [h, hp]

/-- Updates of columns that do not meet commute. -/
theorem update_comm {p q : ρ → Bool} {f g : ρ → ρ} {T : Table ρ} {hf hg}
    (hp : ∀ r, p (g r) = p r) (hq : ∀ r, q (f r) = q r)
    (hfg : ∀ r, f (g r) = g (f r)) :
    (T.update p f hf).update q g hg = (T.update q g hg).update p f hf := by
  apply Table.ext
  simp only [update, List.map_map]
  refine List.map_congr_left fun r _ => ?_
  by_cases h : p r = true <;> by_cases h' : q r = true <;> simp [h, h', hp, hq, hfg]

/-- An insert and an update that does not reach the new row commute. -/
theorem insert?_update {p : ρ → Bool} {f : ρ → ρ} {T T' : Table ρ} {r : ρ}
    (hf : ∀ r, Keyed.key (f r) = Keyed.key r) (h : T.insert? r = some T') (hp : p r = false) :
    (T.update p f hf).insert? r = some (T'.update p f hf) := by
  obtain ⟨hfresh, hrows⟩ := insert?_eq_some.mp h
  refine insert?_eq_some.mpr ⟨fun x hx => ?_, ?_⟩
  · obtain ⟨y, hy, rfl⟩ := mem_update.mp hx
    have hkey : Keyed.key (if p y then f y else y) = Keyed.key y := by
      split <;> simp [hf]
    simpa only [Clashes, hkey] using hfresh y hy
  · simp [update, hrows, hp]

theorem update_eq_self {p : ρ → Bool} {f : ρ → ρ} {T : Table ρ} {hf}
    (h : ∀ r ∈ T, p r = true → f r = r) : T.update p f hf = T := by
  apply Table.ext
  simp only [update]
  conv_rhs => rw [← List.map_id T.rows]
  refine List.map_congr_left fun r hr => ?_
  by_cases hp : p r = true
  · simp [hp, h r hr hp]
  · simp [hp]

/-- Two updates of the same rows agree only if they agree on every row. -/
theorem update_inj {p : ρ → Bool} {f g : ρ → ρ} {T : Table ρ} {hf hg} :
    T.update p f hf = T.update p g hg ↔ ∀ r ∈ T, p r = true → f r = g r := by
  constructor
  · intro h r hr hp
    have hrows := List.map_inj_left.mp (congrArg Table.rows h) r hr
    simpa [hp] using hrows
  · intro h
    apply Table.ext
    refine List.map_congr_left fun r hr => ?_
    by_cases hp : p r = true
    · rw [if_pos hp, if_pos hp, h r hr hp]
    · rw [if_neg hp, if_neg hp]

theorem count_eq_zero {p : ρ → Bool} {T : Table ρ} :
    T.count p = 0 ↔ ∀ r ∈ T, p r = false := by
  unfold count
  rw [Int.natCast_eq_zero, List.length_eq_zero_iff, List.eq_nil_iff_forall_not_mem]
  constructor
  · intro h r hr
    by_contra hp
    exact h r (mem_select.mpr ⟨hr, by simpa using hp⟩)
  · intro h r hr
    obtain ⟨hmem, hp⟩ := mem_select.mp hr
    rw [h r hmem] at hp
    cases hp

/-! ## Changes up to a relation -/

/-- `U` is `T` with the rows `p` selects rewritten, each as `R` allows. -/
def Changed (p : ρ → Bool) (R : ρ → ρ → Prop) (T U : Table ρ) : Prop :=
  ∃ f hf, U = T.update p f hf ∧ ∀ r ∈ T, p r = true → R r (f r)

section Changes

variable {p q : ρ → Bool} {R S : ρ → ρ → Prop} {T U V : Table ρ}

theorem Changed.of_update {f : ρ → ρ} (h : ∀ r ∈ T, p r = true → R r (f r))
    (hf : ∀ r, Keyed.key (f r) = Keyed.key r := by intro _; rfl) :
    T.Changed p R (T.update p f hf) := ⟨f, hf, rfl, h⟩

theorem Changed.refl (h : ∀ r ∈ T, p r = true → R r r) : T.Changed p R T :=
  ⟨id, fun _ => rfl, (update_eq_self fun _ _ _ => rfl).symm, h⟩

theorem Changed.mono (hRS : ∀ r r', r ∈ T → p r = true → R r r' → S r r')
    (h : T.Changed p R U) : T.Changed p S U := by
  obtain ⟨f, hf, rfl, hR⟩ := h
  exact ⟨f, hf, rfl, fun r hr hp => hRS r _ hr hp (hR r hr hp)⟩

theorem update_congr {f : ρ → ρ} {hf} (h : ∀ r ∈ T, p r = q r) :
    T.update p f hf = T.update q f hf := by
  apply Table.ext
  simp only [update]
  refine List.map_congr_left fun r hr => ?_
  rw [h r hr]

theorem Changed.congr (hpq : ∀ r ∈ T, p r = q r) (h : T.Changed p R U) : T.Changed q R U := by
  obtain ⟨f, hf, rfl, hR⟩ := h
  exact ⟨f, hf, update_congr hpq, fun r hr hq => hR r hr ((hpq r hr).trans hq)⟩

/-- A change may be seen as one of more rows, the further ones staying. -/
theorem Changed.widen (hpq : ∀ r ∈ T, p r = true → q r = true)
    (hrefl : ∀ r ∈ T, q r = true → R r r) (h : T.Changed p R U) : T.Changed q R U := by
  obtain ⟨f, hf, rfl, hR⟩ := h
  refine ⟨fun r => if p r then f r else r, fun r => by by_cases hp : p r = true <;> simp [hp, hf],
    ?_, ?_⟩
  · apply Table.ext
    simp only [update]
    refine List.map_congr_left fun r hr => ?_
    by_cases hp : p r = true
    · simp [hp, hpq r hr hp]
    · simp [hp]
  · intro r hr hq
    by_cases hp : p r = true
    · simpa [hp] using hR r hr hp
    · simpa [hp] using hrefl r hr hq

/-- Two changes of the same rows make one. -/
theorem Changed.trans (hstable : ∀ r r', r ∈ T → p r = true → R r r' → p r' = true)
    (h : T.Changed p R U) (h' : U.Changed p S V) :
    T.Changed p (fun r r'' => ∃ r', R r r' ∧ S r' r'') V := by
  obtain ⟨f, hf, rfl, hR⟩ := h
  obtain ⟨g, hg, rfl, hS⟩ := h'
  have hmem : ∀ r ∈ T, p r = true → f r ∈ T.update p f hf := fun r hr hp =>
    mem_update.mpr ⟨r, hr, by simp [hp]⟩
  refine ⟨fun r => g (f r), fun r => (hg _).trans (hf r), ?_, ?_⟩
  · apply Table.ext
    simp only [update, List.map_map]
    refine List.map_congr_left fun r hr => ?_
    by_cases hp : p r = true
    · simp [hp, hstable r _ hr hp (hR r hr hp)]
    · simp [hp]
  · intro r hr hp
    have hp' := hstable r _ hr hp (hR r hr hp)
    exact ⟨f r, hR r hr hp, hS _ (hmem r hr hp) hp'⟩

/-- Changes of disjoint sets of rows make one change of their union. -/
theorem Changed.union (hq : ∀ r r' : ρ, Keyed.key r' = Keyed.key r → q r' = q r)
    (hdisj : ∀ r ∈ T, p r = true → q r = false) (h : T.Changed p R U) (h' : U.Changed q R V) :
    T.Changed (fun r => p r || q r) R V := by
  obtain ⟨f, hf, rfl, hR⟩ := h
  obtain ⟨g, hg, rfl, hS⟩ := h'
  refine ⟨fun r => if p r then f r else g r, fun r => ?_, ?_, ?_⟩
  · by_cases hp : p r = true <;> simp [hp, hf, hg]
  · apply Table.ext
    simp only [update, List.map_map]
    refine List.map_congr_left fun r hr => ?_
    by_cases hp : p r = true
    · simp [hp, hq _ _ (hf r), hdisj r hr hp]
    · simp [hp]
  · intro r hr hpq
    by_cases hp : p r = true
    · simpa [hp] using hR r hr hp
    · have hqr : q r = true := by simpa [hp] using hpq
      have hmem : r ∈ T.update p f hf := mem_update.mpr ⟨r, hr, by simp [hp]⟩
      simpa [hp] using hS r hmem hqr

/-- A row of the changed table comes from a row with its key. -/
theorem Changed.mem_old (h : T.Changed p R U) {r' : ρ} (hr' : r' ∈ U) :
    ∃ r ∈ T, Keyed.key r' = Keyed.key r ∧
      (p r = true ∧ R r r' ∨ p r = false ∧ r' = r) := by
  obtain ⟨f, hf, rfl, hR⟩ := h
  obtain ⟨r, hr, rfl⟩ := mem_update.mp hr'
  refine ⟨r, hr, ?_⟩
  by_cases hp : p r = true
  · simp only [hp, if_true]
    exact ⟨hf r, Or.inl ⟨trivial, hR r hr hp⟩⟩
  · simp [hp]

/-- Every row lives on in the changed table, under its key. -/
theorem Changed.mem_new (h : T.Changed p R U) {r : ρ} (hr : r ∈ T) :
    ∃ r' ∈ U, Keyed.key r' = Keyed.key r ∧
      (p r = true ∧ R r r' ∨ p r = false ∧ r' = r) := by
  obtain ⟨f, hf, rfl, hR⟩ := h
  refine ⟨if p r then f r else r, mem_update.mpr ⟨r, hr, rfl⟩, ?_⟩
  by_cases hp : p r = true
  · simp only [hp, if_true]
    exact ⟨hf r, Or.inl ⟨trivial, hR r hr hp⟩⟩
  · simp [hp]

/-- A row the change does not select stays. -/
theorem Changed.mem_keep (h : T.Changed p R U) {r : ρ} (hr : r ∈ T) (hp : p r = false) :
    r ∈ U := by
  obtain ⟨r', hr', -, h'⟩ := h.mem_new hr
  rcases h' with ⟨hp', -⟩ | ⟨-, rfl⟩
  · simp [hp] at hp'
  · exact hr'

end Changes

/-! ## Sums -/

section Sums

variable {M : Type*} [AddCommGroup M]

@[simp] theorem total_empty (w : ρ → M) : (empty : Table ρ).total w = 0 := rfl

theorem total_congr {w w' : ρ → M} {T : Table ρ} (h : ∀ r ∈ T, w r = w' r) :
    T.total w = T.total w' := by
  simp only [total]
  rw [List.map_congr_left h]

theorem total_insert? {w : ρ → M} {T T' : Table ρ} {r : ρ} (h : T.insert? r = some T') :
    T'.total w = T.total w + w r := by
  simp [total, (insert?_eq_some.mp h).2]

omit [Keyed.{u, v} ρ] in
private theorem sum_map_update (w : ρ → M) (p : ρ → Bool) (f : ρ → ρ) (rows : List ρ) :
    ((rows.map fun r => if p r then f r else r).map w).sum =
      (rows.map w).sum + ((rows.filter p).map fun r => w (f r) - w r).sum := by
  induction rows with
  | nil => simp
  | cons r rows ih =>
      by_cases h : p r = true
      · simp only [List.map_cons, h, if_true, List.sum_cons, ih, List.filter_cons_of_pos]
        abel
      · simp only [List.map_cons, h, List.sum_cons, ih, Bool.false_eq_true, if_false,
          not_false_eq_true, List.filter_cons_of_neg]
        abel

/-- A statement changes a sum by what it changes on the rows it selects. -/
theorem total_update (w : ρ → M) {p : ρ → Bool} {f : ρ → ρ} {T : Table ρ} {hf} :
    (T.update p f hf).total w =
      T.total w + ((T.select p).map fun r => w (f r) - w r).sum :=
  sum_map_update w p f T.rows

theorem total_update_single (w : ρ → M) {p : ρ → Bool} {f : ρ → ρ} {T : Table ρ} {hf}
    {r : ρ} (hr : T.select p = [r]) :
    (T.update p f hf).total w = T.total w + (w (f r) - w r) := by
  rw [total_update, hr]; simp

theorem total_update_const (w : ρ → M) {p : ρ → Bool} {f : ρ → ρ} {T : Table ρ} {hf}
    (δ : M) (h : ∀ r ∈ T, p r = true → w (f r) - w r = δ) :
    (T.update p f hf).total w = T.total w + (T.select p).length • δ := by
  rw [total_update]
  congr 1
  have : (T.select p).map (fun r => w (f r) - w r) =
      List.replicate (T.select p).length δ := by
    rw [List.eq_replicate_iff]
    refine ⟨by simp, ?_⟩
    intro x hx
    obtain ⟨r, hr, rfl⟩ := List.mem_map.mp hx
    exact h r (mem_select.mp hr).1 (mem_select.mp hr).2
  rw [this, List.sum_replicate]

theorem total_update_eq (w : ρ → M) {p : ρ → Bool} {f : ρ → ρ} {T : Table ρ} {hf}
    (h : ∀ r ∈ T, p r = true → w (f r) = w r) : (T.update p f hf).total w = T.total w := by
  rw [total_update_const w 0 fun r hr hp => by rw [h r hr hp, sub_self]]
  simp

theorem total_zero {w : ρ → M} {T : Table ρ} (h : ∀ r ∈ T, w r = 0) : T.total w = 0 := by
  rw [total_congr h]
  simp [total]

/-- A weight of the selected rows only is summed over the selection. -/
theorem total_ite (p : ρ → Bool) (w : ρ → M) (T : Table ρ) :
    (T.total fun r => if p r then w r else 0) = ((T.select p).map w).sum := by
  simp only [total, select]
  induction T.rows with
  | nil => rfl
  | cons r rows ih =>
      by_cases h : p r = true
      · simp only [List.map_cons, h, if_true, List.sum_cons, ih, List.filter_cons_of_pos]
      · simp only [List.map_cons, h, Bool.false_eq_true, if_false, List.sum_cons, ih, zero_add,
          not_false_eq_true, List.filter_cons_of_neg]

end Sums

section ChangedSums

variable {M : Type*} [AddCommGroup M] {p : ρ → Bool} {R : ρ → ρ → Prop} {T U : Table ρ}

/-- A change that keeps every weight keeps the sum. -/
theorem Changed.total_eq (h : T.Changed p R U) {w : ρ → M}
    (hw : ∀ r r', r ∈ T → p r = true → Keyed.key r' = Keyed.key r → R r r' → w r' = w r) :
    U.total w = T.total w := by
  obtain ⟨f, hf, rfl, hR⟩ := h
  exact total_update_eq w fun r hr hp => hw r _ hr hp (hf r) (hR r hr hp)

/-- A change that moves every weight by `δ` moves the sum by `δ` a row. -/
theorem Changed.total_const (h : T.Changed p R U) {w : ρ → M} (δ : M)
    (hw : ∀ r r', r ∈ T → p r = true → Keyed.key r' = Keyed.key r → R r r' → w r' - w r = δ) :
    U.total w = T.total w + (T.select p).length • δ := by
  obtain ⟨f, hf, rfl, hR⟩ := h
  exact total_update_const w δ fun r hr hp => hw r _ hr hp (hf r) (hR r hr hp)

/-- A change of one row moves the sum by the change of its weight. -/
theorem Changed.total_single (h : T.Changed p R U) (w : ρ → M) {r : ρ}
    (hr : T.select p = [r]) :
    ∃ r' ∈ U, Keyed.key r' = Keyed.key r ∧ R r r' ∧ U.total w = T.total w + (w r' - w r) := by
  obtain ⟨f, hf, rfl, hR⟩ := h
  have hmem : r ∈ T ∧ p r = true := by
    have : r ∈ T.select p := by simp [hr]
    exact mem_select.mp this
  refine ⟨f r, mem_update.mpr ⟨r, hmem.1, by simp [hmem.2]⟩, hf r, hR r hmem.1 hmem.2, ?_⟩
  exact total_update_single w hr

end ChangedSums

/-- Counting rows is summing an indicator. -/
theorem count_eq_total (p : ρ → Bool) (T : Table ρ) :
    T.count p = T.total fun r => if p r then (1 : ℤ) else 0 := by
  simp only [count, select, total]
  induction T.rows with
  | nil => rfl
  | cons r rows ih =>
      by_cases h : p r = true
      · simp only [h, List.filter_cons_of_pos, List.length_cons, Nat.cast_add, Nat.cast_one,
          List.map_cons, if_true, List.sum_cons, ← ih]
        ring
      · simp only [h, not_false_eq_true, List.filter_cons_of_neg, List.map_cons,
          Bool.false_eq_true, if_false, List.sum_cons, zero_add, ih]

/-- A non-negative weight of one row is at most the sum over all rows. -/
theorem le_total {w : ρ → ℤ} {T : Table ρ} {r : ρ} (hr : r ∈ T) (h : ∀ x ∈ T, 0 ≤ w x) :
    w r ≤ T.total w := by
  simp only [total]
  have hr' : w r ∈ T.rows.map w := List.mem_map_of_mem hr
  exact List.single_le_sum (by simpa [mem_def] using h) _ hr'

end Table

end CrawlTrove.Relational
