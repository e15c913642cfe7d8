import Mathlib

/-!
# Waiting lines

Items wait in a line and the desk looks at the head only. Serving it, being
stuck with it and sending it away are all the desk can do; sending away may
concern a whole group. `Serves` says in terms of the line as it stands whether
anybody is ever served.
-/

namespace CrawlTrove.Relational

universe u v

variable {α : Type u} {β : Type v}

section Sorting

variable {r : α → α → Prop} [DecidableRel r]

/-- What comes after everything is inserted in front of it. -/
theorem orderedInsert_of_forall_rel {a : α} {l : List α} (h : ∀ b ∈ l, r a b) :
    l.orderedInsert r a = a :: l := by
  cases l with
  | nil => rfl
  | cons b l => exact List.orderedInsert_cons_of_le r l (h b (by simp))

theorem filter_orderedInsert [IsTrans α r] (p : α → Bool) (a : α) {l : List α}
    (hl : l.Pairwise r) :
    (l.orderedInsert r a).filter p =
      if p a then (l.filter p).orderedInsert r a else l.filter p := by
  induction l with
  | nil => cases hp : p a <;> simp [hp]
  | cons b l ih =>
      obtain ⟨hb, hl⟩ := List.pairwise_cons.mp hl
      by_cases hab : r a b
      · have hall : ∀ c ∈ b :: l, r a c := by
          intro c hc
          rcases List.mem_cons.mp hc with rfl | hc
          · exact hab
          · exact trans_of r hab (hb c hc)
        have hfiltered : ∀ c ∈ (b :: l).filter p, r a c := fun c hc =>
          hall c (List.mem_filter.mp hc).1
        rw [List.orderedInsert_cons_of_le r l hab, orderedInsert_of_forall_rel hfiltered,
          List.filter_cons]
      · rw [List.orderedInsert_of_not_le r l hab]
        cases hp : p b with
        | true =>
            rw [List.filter_cons_of_pos hp, List.filter_cons_of_pos hp, ih hl,
              List.orderedInsert_of_not_le r _ hab]
            split <;> rfl
        | false =>
            rw [List.filter_cons_of_neg (by simp [hp]), List.filter_cons_of_neg (by simp [hp]),
              ih hl]

/-- Sorting is stable: what is left out does not change the order of the rest. -/
theorem filter_insertionSort [IsTrans α r] [Std.Total r] (p : α → Bool) (l : List α) :
    (l.insertionSort r).filter p = (l.filter p).insertionSort r := by
  induction l with
  | nil => rfl
  | cons a l ih =>
      rw [List.insertionSort_cons, filter_orderedInsert p a (List.pairwise_insertionSort r l), ih]
      cases hp : p a with
      | true => rw [if_pos rfl, List.filter_cons_of_pos hp, List.insertionSort_cons]
      | false => rw [if_neg (by simp), List.filter_cons_of_neg (by simp [hp])]

end Sorting

/-- How a line is served: the item at its head is served, stalls the line, or
leaves it; it may take its whole group along. -/
structure Desk (α : Type u) (β : Type v) where
  group : α → β
  served : α → Prop
  stalls : α → Prop
  dismisses : α → Prop
  served_not_stalls : ∀ a, served a → ¬ stalls a
  served_not_dismisses : ∀ a b, served a → dismisses b → group a ≠ group b
  stalls_not_dismisses : ∀ a, stalls a → ¬ dismisses a

namespace Desk

variable {d : Desk α β} {h a b : α} {line : List α}

/-- Somebody in the line is served: whatever would stall the line before is
gone by then with its group. -/
def Serves (d : Desk α β) (line : List α) : Prop :=
  ∃ a ∈ line, d.served a ∧ ∀ b, d.stalls b → [b, a].Sublist line →
    ∃ c, d.dismisses c ∧ d.group c = d.group b ∧ [c, b].Sublist line

theorem pair_head (hb : b ∈ line) : [h, b].Sublist (h :: line) :=
  (List.singleton_sublist.mpr hb).cons_cons h

/-- Nobody stands before the head. -/
theorem not_pair_head (hnodup : (h :: line).Nodup) : ¬ [a, h].Sublist (h :: line) := by
  intro hpair
  have hmem : h ∈ line := by
    cases hpair with
    | cons _ hrest => exact hrest.subset (by simp)
    | cons_cons _ hrest => exact hrest.subset (by simp)
  exact (List.nodup_cons.mp hnodup).1 hmem

theorem pair_cons (ha : a ≠ h) : [a, b].Sublist (h :: line) ↔ [a, b].Sublist line := by
  constructor
  · intro hpair
    cases hpair with
    | cons _ hrest => exact hrest
    | cons_cons => exact absurd rfl ha
  · exact fun hpair => hpair.cons h

theorem serves_nil : ¬ d.Serves [] := by
  rintro ⟨a, ha, -⟩
  cases ha

theorem serves_of_served (hnodup : (h :: line).Nodup) (hserved : d.served h) :
    d.Serves (h :: line) :=
  ⟨h, List.mem_cons_self, hserved, fun _ _ hpair => absurd hpair (not_pair_head hnodup)⟩

theorem not_serves_of_stalls (hnodup : (h :: line).Nodup) (hstalls : d.stalls h) :
    ¬ d.Serves (h :: line) := by
  rintro ⟨a, ha, hserved, hclear⟩
  have hne : a ≠ h := by
    rintro rfl
    exact d.served_not_stalls a hserved hstalls
  obtain ⟨c, -, -, hpair⟩ := hclear h hstalls (pair_head (List.mem_of_ne_of_mem hne ha))
  exact not_pair_head hnodup hpair

/-- A head that only leaves makes no difference. -/
theorem serves_of_passes (hserved : ¬ d.served h) (hstalls : ¬ d.stalls h)
    (hdismisses : ¬ d.dismisses h) : d.Serves (h :: line) ↔ d.Serves line := by
  have hne : ∀ {q : α → Prop}, ¬ q h → ∀ {a}, q a → a ≠ h := by
    rintro q hq a ha rfl
    exact hq ha
  constructor
  · rintro ⟨a, ha, hs, hclear⟩
    refine ⟨a, List.mem_of_ne_of_mem (hne hserved hs) ha, hs, fun b hb hpair => ?_⟩
    obtain ⟨c, hc, hgroup, hbefore⟩ := hclear b hb (hpair.cons h)
    exact ⟨c, hc, hgroup, (pair_cons (hne hdismisses hc)).mp hbefore⟩
  · rintro ⟨a, ha, hs, hclear⟩
    refine ⟨a, List.mem_cons_of_mem h ha, hs, fun b hb hpair => ?_⟩
    obtain ⟨c, hc, hgroup, hbefore⟩ := hclear b hb ((pair_cons (hne hstalls hb)).mp hpair)
    exact ⟨c, hc, hgroup, hbefore.cons h⟩

theorem pair_filter {p : α → Bool} (ha : p a = true) (hb : p b = true) :
    [a, b].Sublist (line.filter p) ↔ [a, b].Sublist line := by
  constructor
  · exact fun hpair => hpair.trans List.filter_sublist
  · intro hpair
    have hkept := hpair.filter p
    rwa [List.filter_cons_of_pos ha, List.filter_cons_of_pos hb, List.filter_nil] at hkept

/-- A head that dismisses its group leaves the others as they stand. -/
theorem serves_of_dismisses [DecidableEq β] (hdismisses : d.dismisses h) :
    d.Serves (h :: line) ↔ d.Serves (line.filter fun a => d.group a ≠ d.group h) := by
  have hkept : ∀ {a b}, d.group a ≠ d.group h → d.group b ≠ d.group h →
      ([a, b].Sublist (line.filter fun a => d.group a ≠ d.group h) ↔ [a, b].Sublist line) :=
    fun ha hb => pair_filter (decide_eq_true ha) (decide_eq_true hb)
  have hhead : ∀ {a}, d.group a ≠ d.group h → a ≠ h := by
    rintro a ha rfl
    exact ha rfl
  constructor
  · rintro ⟨a, ha, hs, hclear⟩
    have hother := d.served_not_dismisses a h hs hdismisses
    refine ⟨a, List.mem_filter.mpr ⟨?_, decide_eq_true hother⟩, hs, fun b hb hpair => ?_⟩
    · exact List.mem_of_ne_of_mem (hhead hother) ha
    have hbother : d.group b ≠ d.group h :=
      of_decide_eq_true (List.mem_filter.mp (hpair.subset List.mem_cons_self)).2
    obtain ⟨c, hc, hgroup, hbefore⟩ :=
      hclear b hb (((hkept hbother hother).mp hpair).cons h)
    have hcother : d.group c ≠ d.group h := by rwa [hgroup]
    refine ⟨c, hc, hgroup, (hkept hcother hbother).mpr ?_⟩
    exact (pair_cons (hhead hcother)).mp hbefore
  · rintro ⟨a, ha, hs, hclear⟩
    obtain ⟨ha, -⟩ := List.mem_filter.mp ha
    have hother := d.served_not_dismisses a h hs hdismisses
    refine ⟨a, List.mem_cons_of_mem h ha, hs, fun b hb hpair => ?_⟩
    have hne : b ≠ h := by
      rintro rfl
      exact d.stalls_not_dismisses b hb hdismisses
    have hrest := (pair_cons hne).mp hpair
    by_cases hgroup : d.group b = d.group h
    · exact ⟨h, hdismisses, hgroup.symm, pair_head (hrest.subset List.mem_cons_self)⟩
    · obtain ⟨c, hc, hsame, hbefore⟩ :=
        hclear b hb ((hkept hgroup hother).mpr hrest)
      exact ⟨c, hc, hsame, (hbefore.trans List.filter_sublist).cons h⟩

end Desk

end CrawlTrove.Relational
