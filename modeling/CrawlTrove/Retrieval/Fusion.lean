import CrawlTrove.Ranking.Scores
import CrawlTrove.Retrieval.Merging

/-!
# Reciprocal rank fusion

`reciprocal_rank_fusion` (`app/retrieval.py`) with exact arithmetic: every chunk gets from
each list the weight of the list over its first rank there, moved by a constant. The hits
that are fused carry no fused score yet.
-/

namespace CrawlTrove.Retrieval

open Ranking

inductive Signal
  | semantic
  | keyword
deriving DecidableEq

/-- A copy of a hit with what retrieval notes about it. -/
structure Candidate where
  hit : Hit
  semanticRank : Option ℕ := none
  semanticScore : Option ℚ := none
  keywordRank : Option ℕ := none
  keywordScore : Option ℚ := none
  fusedScore : Option ℚ := none
deriving DecidableEq

def Candidate.key (c : Candidate) : Key := c.hit.key

/-- `hit[f"{signal}Rank"]` and `hit[f"{signal}Score"]` are set. -/
def Candidate.note (signal : Signal) (rank : ℕ) (score : Option ℚ) (c : Candidate) : Candidate :=
  match signal with
  | .semantic => { c with semanticRank := some rank, semanticScore := score }
  | .keyword => { c with keywordRank := some rank, keywordScore := score }

/-- The order of keys, as Python compares tuples. -/
def keyOrder (key : Key) : String ×ₗ String ×ₗ ℤ := toLex (key.1, toLex key.2)

/-- The body of the inner loop, for a key that is new in the list. -/
def fuseHit (signal : Signal) (weight : ℚ≥0) (rrfK rank : ℕ) (source : Hit)
    (fused : List Candidate) : List Candidate :=
  (if fused.any fun c => c.key = source.key then fused else fused ++ [{ hit := source }]).map
    fun c =>
      if c.key = source.key then
        { c.note signal rank source.score with
          fusedScore := some (c.fusedScore.getD 0 + weight / (rrfK + rank)) }
      else c

/-- The inner loop, from a rank on. -/
def fuseFrom (signal : Signal) (weight : ℚ≥0) (rrfK rank : ℕ) (seen : List Key)
    (fused : List Candidate) : List Hit → List Candidate
  | [] => fused
  | source :: hits =>
      if source.key ∈ seen then fuseFrom signal weight rrfK (rank + 1) seen fused hits
      else
        fuseFrom signal weight rrfK (rank + 1) (source.key :: seen)
          (fuseHit signal weight rrfK rank source fused) hits

/-- The values of `fused` after both lists. -/
def fuse (semantic keyword : List Hit) (rrfK : ℕ) (semanticWeight keywordWeight : ℚ≥0) :
    List Candidate :=
  fuseFrom .keyword keywordWeight rrfK 1 []
    (fuseFrom .semantic semanticWeight rrfK 1 [] [] semantic) keyword

/-- The sorting key of the output, `(-fusedScore, key)`. -/
def comesFirst (c d : Candidate) : Bool :=
  d.fusedScore.getD 0 < c.fusedScore.getD 0 ||
    (c.fusedScore.getD 0 = d.fusedScore.getD 0 && keyOrder c.key ≤ keyOrder d.key)

/-- `hit["score"] = hit["fusedScore"]`. -/
def Candidate.scored (c : Candidate) : Candidate := { c with hit.score := c.fusedScore }

/-- `reciprocal_rank_fusion`. -/
def reciprocalRankFusion (semantic keyword : List Hit) (k rrfK : ℕ)
    (semanticWeight keywordWeight : ℚ≥0) : List Candidate :=
  (((fuse semantic keyword rrfK semanticWeight keywordWeight).map Candidate.scored).mergeSort
    comesFirst).take k

/-! ## The exact score -/

/-- What a list adds to the score of a key: its weight over the key's first rank. -/
def contribution (weight : ℚ≥0) (rrfK : ℕ) (hits : List Hit) (key : Key) : ℚ :=
  if key ∈ hits.map Hit.key then weight / (rrfK + ((hits.map Hit.key).idxOf key + 1 : ℕ)) else 0

def exactScore (semantic keyword : List Hit) (rrfK : ℕ) (semanticWeight keywordWeight : ℚ≥0)
    (key : Key) : ℚ :=
  contribution semanticWeight rrfK semantic key + contribution keywordWeight rrfK keyword key

/-- The score of a key so far, nothing for one that has not come. -/
def scoreOf (fused : List Candidate) (key : Key) : ℚ :=
  ((fused.find? fun c => c.key = key).bind Candidate.fusedScore).getD 0

/-- The dictionary: one entry for a key, and every entry has a score. -/
structure Fused (fused : List Candidate) : Prop where
  distinct : (fused.map Candidate.key).Nodup
  scored : ∀ c ∈ fused, c.fusedScore = some (scoreOf fused c.key)

/-! ## One hit -/

section Hits

variable {signal : Signal} {weight : ℚ≥0} {rrfK rank : ℕ} {source : Hit} {fused : List Candidate}

@[simp] theorem Candidate.key_note (signal : Signal) (rank : ℕ) (score : Option ℚ)
    (c : Candidate) : (c.note signal rank score).key = c.key := by
  cases signal with
  | semantic => rfl
  | keyword => rfl

@[simp] theorem Candidate.key_scored (c : Candidate) : c.scored.key = c.key := rfl

/-- The entry of the key is there, if need be a new one. -/
def withEntry (source : Hit) (fused : List Candidate) : List Candidate :=
  if fused.any fun c => c.key = source.key then fused else fused ++ [{ hit := source }]

/-- An entry after its key has come again. -/
def raise (signal : Signal) (weight : ℚ≥0) (rrfK rank : ℕ) (source : Hit) (c : Candidate) :
    Candidate :=
  if c.key = source.key then
    { c.note signal rank source.score with
      fusedScore := some (c.fusedScore.getD 0 + weight / (rrfK + rank)) }
  else c

theorem fuseHit_eq : fuseHit signal weight rrfK rank source fused =
    (withEntry source fused).map (raise signal weight rrfK rank source) := rfl

@[simp] theorem key_raise (c : Candidate) :
    (raise signal weight rrfK rank source c).key = c.key := by
  unfold raise
  split
  · exact Candidate.key_note signal rank source.score c
  · rfl

theorem fusedScore_raise (c : Candidate) :
    (raise signal weight rrfK rank source c).fusedScore.getD 0 =
      c.fusedScore.getD 0 + if c.key = source.key then (weight : ℚ) / (rrfK + rank) else 0 := by
  unfold raise
  by_cases h : c.key = source.key
  · rw [if_pos h, if_pos h]
    rfl
  · rw [if_neg h, if_neg h, add_zero]

theorem any_key_iff : (fused.any fun c => c.key = source.key) = true ↔
    source.key ∈ fused.map Candidate.key := by
  simp [List.any_eq_true]

theorem keys_withEntry : (withEntry source fused).map Candidate.key =
    if source.key ∈ fused.map Candidate.key then fused.map Candidate.key
    else fused.map Candidate.key ++ [source.key] := by
  unfold withEntry
  by_cases h : source.key ∈ fused.map Candidate.key
  · rw [if_pos (any_key_iff.mpr h), if_pos h]
  · rw [if_neg (fun hany => h (any_key_iff.mp hany)), if_neg h, List.map_append]
    rfl

theorem keys_fuseHit : (fuseHit signal weight rrfK rank source fused).map Candidate.key =
    if source.key ∈ fused.map Candidate.key then fused.map Candidate.key
    else fused.map Candidate.key ++ [source.key] := by
  rw [fuseHit_eq, List.map_map, ← keys_withEntry]
  refine List.map_congr_left ?_
  intro c _
  exact key_raise c

theorem mem_keys_fuseHit (key : Key) :
    key ∈ (fuseHit signal weight rrfK rank source fused).map Candidate.key ↔
      key ∈ fused.map Candidate.key ∨ key = source.key := by
  rw [keys_fuseHit]
  split
  · rename_i h
    constructor
    · exact Or.inl
    · rintro (hkey | rfl)
      · exact hkey
      · exact h
  · rw [List.mem_append, List.mem_singleton]

/-- A new entry has no score yet. -/
theorem scoreOf_withEntry (key : Key) :
    scoreOf (withEntry source fused) key = scoreOf fused key := by
  unfold withEntry
  split
  · rfl
  · unfold scoreOf
    rw [List.find?_append]
    cases fused.find? fun c => c.key = key with
    | some c => rfl
    | none =>
        by_cases h : source.key = key
        · simp [Candidate.key, h]
        · simp [Candidate.key, h]

theorem scoreOf_fuseHit (key : Key) :
    scoreOf (fuseHit signal weight rrfK rank source fused) key =
      scoreOf fused key + if key = source.key then (weight : ℚ) / (rrfK + rank) else 0 := by
  have hfind : (fuseHit signal weight rrfK rank source fused).find? (fun c => c.key = key) =
      ((withEntry source fused).find? fun c => c.key = key).map
        (raise signal weight rrfK rank source) := by
    rw [fuseHit_eq, List.find?_map]
    congr 1
    congr 1
    funext c
    simp
  have hbase : scoreOf (withEntry source fused) key = scoreOf fused key := scoreOf_withEntry key
  rw [← hbase]
  unfold scoreOf
  rw [hfind]
  cases hentry : (withEntry source fused).find? fun c => c.key = key with
  | some c =>
      have hkey : c.key = key := of_decide_eq_true (List.find?_eq_some_iff_append.mp hentry).1
      rw [← hkey]
      exact fusedScore_raise c
  | none =>
      have hne : key ≠ source.key := by
        rintro rfl
        have hmem : source.key ∈ (withEntry source fused).map Candidate.key := by
          rw [keys_withEntry]
          split
          · assumption
          · exact List.mem_append_right _ List.mem_cons_self
        obtain ⟨c, hc, hkey⟩ := List.mem_map.mp hmem
        exact List.find?_eq_none.mp hentry c hc (decide_eq_true hkey)
      rw [if_neg hne]
      exact (add_zero 0).symm

/-- Entries with different keys are found again. -/
theorem find?_of_mem (h : (fused.map Candidate.key).Nodup) {c : Candidate} (hc : c ∈ fused) :
    (fused.find? fun d => d.key = c.key) = some c := by
  induction fused with
  | nil => exact absurd hc List.not_mem_nil
  | cons d fused ih =>
      obtain ⟨hd, hnodup⟩ := List.nodup_cons.mp h
      rcases List.mem_cons.mp hc with rfl | hc
      · rw [List.find?_cons_of_pos (by simp)]
      · have hne : d.key ≠ c.key := by
          intro heq
          exact hd (heq ▸ List.mem_map.mpr ⟨c, hc, rfl⟩)
        rw [List.find?_cons_of_neg (by simp [hne]), ih hnodup hc]

theorem Fused.fuseHit (h : Fused fused) :
    Fused (fuseHit signal weight rrfK rank source fused) := by
  have hdistinct : ((Retrieval.fuseHit signal weight rrfK rank source fused).map
      Candidate.key).Nodup := by
    rw [keys_fuseHit]
    split
    · exact h.distinct
    · rename_i hnew
      refine List.nodup_append.mpr ⟨h.distinct, List.nodup_singleton _, ?_⟩
      intro a ha b hb
      obtain rfl := List.mem_singleton.mp hb
      rintro rfl
      exact hnew ha
  refine ⟨hdistinct, ?_⟩
  intro c hc
  have hfound := find?_of_mem hdistinct hc
  have hsome : c.fusedScore.isSome = true := by
    rw [fuseHit_eq] at hc
    obtain ⟨d, hd, rfl⟩ := List.mem_map.mp hc
    unfold raise
    split
    · rfl
    · rename_i hne
      have hmem : d ∈ fused := by
        unfold withEntry at hd
        split at hd
        · exact hd
        · rcases List.mem_append.mp hd with hd | hd
          · exact hd
          · obtain rfl := List.mem_singleton.mp hd
            exact absurd rfl hne
      rw [h.scored d hmem]
      rfl
  obtain ⟨x, hx⟩ := Option.isSome_iff_exists.mp hsome
  rw [scoreOf, hfound, Option.bind_some, hx]
  rfl

end Hits

/-! ## Lists -/

section Lists

variable {signal : Signal} {weight : ℚ≥0} {rrfK rank : ℕ} {seen : List Key}
  {fused : List Candidate} {hits : List Hit}

theorem Fused.fuseFrom (h : Fused fused) :
    Fused (fuseFrom signal weight rrfK rank seen fused hits) := by
  induction hits generalizing rank seen fused with
  | nil => exact h
  | cons source hits ih =>
      unfold Retrieval.fuseFrom
      split
      · exact ih h
      · exact ih h.fuseHit

theorem mem_keys_fuseFrom (key : Key) :
    key ∈ (fuseFrom signal weight rrfK rank seen fused hits).map Candidate.key ↔
      key ∈ fused.map Candidate.key ∨ (key ∉ seen ∧ key ∈ hits.map Hit.key) := by
  induction hits generalizing rank seen fused with
  | nil => simp [fuseFrom]
  | cons source hits ih =>
      unfold fuseFrom
      rw [List.map_cons, List.mem_cons]
      by_cases hseen : source.key ∈ seen
      · rw [if_pos hseen, ih]
        constructor
        · rintro (h | ⟨hunseen, h⟩)
          · exact Or.inl h
          · exact Or.inr ⟨hunseen, Or.inr h⟩
        · rintro (h | ⟨hunseen, rfl | h⟩)
          · exact Or.inl h
          · exact absurd hseen hunseen
          · exact Or.inr ⟨hunseen, h⟩
      · rw [if_neg hseen, ih, mem_keys_fuseHit, List.mem_cons, not_or]
        constructor
        · rintro ((h | rfl) | ⟨⟨-, hunseen⟩, h⟩)
          · exact Or.inl h
          · exact Or.inr ⟨hseen, Or.inl rfl⟩
          · exact Or.inr ⟨hunseen, Or.inr h⟩
        · rintro (h | ⟨hunseen, rfl | h⟩)
          · exact Or.inl (Or.inl h)
          · exact Or.inl (Or.inr rfl)
          · by_cases heq : key = source.key
            · exact Or.inl (Or.inr heq)
            · exact Or.inr ⟨⟨heq, hunseen⟩, h⟩

/-- Only the first hit with a key adds to its score. -/
theorem scoreOf_fuseFrom (key : Key) :
    scoreOf (fuseFrom signal weight rrfK rank seen fused hits) key =
      scoreOf fused key + if key ∉ seen ∧ key ∈ hits.map Hit.key then
        (weight : ℚ) / (rrfK + (rank + (hits.map Hit.key).idxOf key : ℕ)) else 0 := by
  induction hits generalizing rank seen fused with
  | nil => simp [fuseFrom]
  | cons source hits ih =>
      unfold fuseFrom
      rw [List.map_cons]
      by_cases hkey : key = source.key
      · subst hkey
        by_cases hseen : source.key ∈ seen
        · rw [if_pos hseen, ih, if_neg (fun h => h.1 hseen), if_neg (fun h => h.1 hseen)]
        · have hfirst : source.key ∉ seen ∧ source.key ∈ source.key :: hits.map Hit.key :=
            ⟨hseen, List.mem_cons_self⟩
          rw [if_neg hseen, ih, scoreOf_fuseHit, if_pos rfl, if_pos hfirst,
            if_neg (fun h => h.1 List.mem_cons_self), List.idxOf_cons_self, add_zero, Nat.add_zero]
      · have hmem : key ∈ source.key :: hits.map Hit.key ↔ key ∈ hits.map Hit.key := by
          rw [List.mem_cons, or_iff_right hkey]
        have hrank : rank + 1 + (hits.map Hit.key).idxOf key =
            rank + (source.key :: hits.map Hit.key).idxOf key := by
          rw [List.idxOf_cons_ne _ (Ne.symm hkey)]
          omega
        have hunseen : key ∉ source.key :: seen ↔ key ∉ seen := by
          rw [List.mem_cons, not_or, and_iff_right hkey]
        simp only [hmem, ← hrank]
        by_cases hseen : source.key ∈ seen
        · rw [if_pos hseen, ih]
        · rw [if_neg hseen, ih, scoreOf_fuseHit, if_neg hkey, add_zero]
          simp only [hunseen]

end Lists

section Fusion

variable {semantic keyword : List Hit} {k rrfK : ℕ} {semanticWeight keywordWeight : ℚ≥0}

theorem fused_fuse : Fused (fuse semantic keyword rrfK semanticWeight keywordWeight) :=
  Fused.fuseFrom (Fused.fuseFrom ⟨List.nodup_nil, by simp⟩)

theorem mem_keys_fuse (key : Key) :
    key ∈ (fuse semantic keyword rrfK semanticWeight keywordWeight).map Candidate.key ↔
      key ∈ semantic.map Hit.key ∨ key ∈ keyword.map Hit.key := by
  rw [fuse, mem_keys_fuseFrom, mem_keys_fuseFrom]
  simp

/-- The fused score is the exact one. -/
theorem scoreOf_fuse (key : Key) :
    scoreOf (fuse semantic keyword rrfK semanticWeight keywordWeight) key =
      exactScore semantic keyword rrfK semanticWeight keywordWeight key := by
  have hempty : scoreOf [] key = 0 := rfl
  have hone : ∀ i : ℕ, 1 + i = i + 1 := fun i => Nat.add_comm 1 i
  rw [fuse, scoreOf_fuseFrom, scoreOf_fuseFrom, hempty, zero_add, exactScore, contribution,
    contribution]
  simp only [List.not_mem_nil, not_false_eq_true, true_and, hone]

/-! ## The order of the output -/

theorem comesFirst_iff {c d : Candidate} : comesFirst c d = true ↔
    d.fusedScore.getD 0 < c.fusedScore.getD 0 ∨
      (c.fusedScore.getD 0 = d.fusedScore.getD 0 ∧ keyOrder c.key ≤ keyOrder d.key) := by
  simp [comesFirst]

theorem comesFirst_trans (a b c : Candidate) (h : comesFirst a b = true)
    (h' : comesFirst b c = true) : comesFirst a c = true := by
  rw [comesFirst_iff] at h h' ⊢
  rcases h with h | ⟨heq, h⟩
  · rcases h' with h' | ⟨heq', -⟩
    · exact Or.inl (lt_trans h' h)
    · exact Or.inl (heq' ▸ h)
  · rcases h' with h' | ⟨heq', h'⟩
    · exact Or.inl (heq ▸ h')
    · exact Or.inr ⟨heq.trans heq', le_trans h h'⟩

theorem comesFirst_total (a b : Candidate) : (comesFirst a b || comesFirst b a) = true := by
  rw [Bool.or_eq_true, comesFirst_iff, comesFirst_iff]
  rcases lt_trichotomy (a.fusedScore.getD 0) (b.fusedScore.getD 0) with h | h | h
  · exact Or.inr (Or.inl h)
  · rcases le_total (keyOrder a.key) (keyOrder b.key) with h' | h'
    · exact Or.inl (Or.inr ⟨h, h'⟩)
    · exact Or.inr (Or.inr ⟨h.symm, h'⟩)
  · exact Or.inl (Or.inl h)

theorem keyOrder_injective : Function.Injective keyOrder := by
  rintro ⟨kind, ref, index⟩ ⟨kind', ref', index'⟩ h
  obtain ⟨rfl, h⟩ := Prod.mk.inj (toLex_inj.mp h)
  obtain ⟨rfl, rfl⟩ := Prod.mk.inj (toLex_inj.mp h)
  rfl

/-- The whole output, before it is cut to length. -/
def sortedCandidates (semantic keyword : List Hit) (rrfK : ℕ)
    (semanticWeight keywordWeight : ℚ≥0) : List Candidate :=
  ((fuse semantic keyword rrfK semanticWeight keywordWeight).map Candidate.scored).mergeSort
    comesFirst

theorem mem_sortedCandidates {c : Candidate} :
    c ∈ sortedCandidates semantic keyword rrfK semanticWeight keywordWeight ↔
      ∃ d ∈ fuse semantic keyword rrfK semanticWeight keywordWeight, d.scored = c := by
  rw [sortedCandidates, List.mem_mergeSort, List.mem_map]

theorem fusedScore_sorted {c : Candidate}
    (h : c ∈ sortedCandidates semantic keyword rrfK semanticWeight keywordWeight) :
    c.fusedScore = some (exactScore semantic keyword rrfK semanticWeight keywordWeight c.key) := by
  obtain ⟨d, hd, rfl⟩ := mem_sortedCandidates.mp h
  rw [← scoreOf_fuse]
  exact fused_fuse.scored d hd

theorem mem_keys_sorted (key : Key) :
    key ∈ (sortedCandidates semantic keyword rrfK semanticWeight keywordWeight).map Candidate.key ↔
      key ∈ semantic.map Hit.key ∨ key ∈ keyword.map Hit.key := by
  rw [← @mem_keys_fuse semantic keyword rrfK semanticWeight keywordWeight, List.mem_map,
    List.mem_map]
  constructor
  · rintro ⟨c, hc, rfl⟩
    obtain ⟨d, hd, rfl⟩ := mem_sortedCandidates.mp hc
    exact ⟨d, hd, rfl⟩
  · rintro ⟨d, hd, rfl⟩
    exact ⟨d.scored, mem_sortedCandidates.mpr ⟨d, hd, rfl⟩, rfl⟩

theorem nodup_keys_sorted :
    ((sortedCandidates semantic keyword rrfK semanticWeight keywordWeight).map
      Candidate.key).Nodup := by
  have hperm := (List.mergeSort_perm ((fuse semantic keyword rrfK semanticWeight
    keywordWeight).map Candidate.scored) comesFirst).map Candidate.key
  have hkeys : ((fuse semantic keyword rrfK semanticWeight keywordWeight).map
      Candidate.scored).map Candidate.key =
        (fuse semantic keyword rrfK semanticWeight keywordWeight).map Candidate.key := by
    rw [List.map_map]
    rfl
  rw [hkeys] at hperm
  exact hperm.nodup_iff.mpr fused_fuse.distinct

/-- The keys come by descending exact score, keys with equal scores in their order. -/
theorem ranked_sorted :
    Ranked (exactScore semantic keyword rrfK semanticWeight keywordWeight) keyOrder
      ((sortedCandidates semantic keyword rrfK semanticWeight keywordWeight).map
        Candidate.key) := by
  have hsorted := List.pairwise_mergeSort comesFirst_trans comesFirst_total
    ((fuse semantic keyword rrfK semanticWeight keywordWeight).map Candidate.scored)
  have hdistinct := List.pairwise_map.mp
    (@nodup_keys_sorted semantic keyword rrfK semanticWeight keywordWeight)
  apply List.pairwise_map.mpr
  refine List.Pairwise.imp_of_mem ?_ (hsorted.and hdistinct)
  rintro c d hc hd ⟨hfirst, hne⟩
  rw [comesFirst_iff, fusedScore_sorted hc, fusedScore_sorted hd] at hfirst
  rcases hfirst with h | ⟨heq, h⟩
  · exact Or.inl h
  · exact Or.inr ⟨heq, lt_of_le_of_ne h fun hkey => hne (keyOrder_injective hkey)⟩

/-- Exchanging the lists with their weights exchanges the summands. -/
theorem exactScore_comm (key : Key) :
    exactScore semantic keyword rrfK semanticWeight keywordWeight key =
      exactScore keyword semantic rrfK keywordWeight semanticWeight key := add_comm _ _

theorem keys_sorted_comm :
    (sortedCandidates semantic keyword rrfK semanticWeight keywordWeight).map Candidate.key =
      (sortedCandidates keyword semantic rrfK keywordWeight semanticWeight).map Candidate.key := by
  have hscore : exactScore keyword semantic rrfK keywordWeight semanticWeight =
      exactScore semantic keyword rrfK semanticWeight keywordWeight := by
    funext key
    exact exactScore_comm key
  have hother := @ranked_sorted keyword semantic rrfK keywordWeight semanticWeight
  rw [hscore] at hother
  refine ranked_sorted.eq_of_mem_iff hother ?_
  intro key
  rw [mem_keys_sorted, mem_keys_sorted, or_comm]

end Fusion

/-! ## Hits that move up -/

/-- The second list is the first with the hit at an earlier place. -/
def Advances (hit : Hit) (hits hits' : List Hit) : Prop :=
  ∃ front between back, hits = front ++ between ++ hit :: back ∧
    hits' = front ++ hit :: between ++ back

/-- The ranks of the keys: that of the hit does not rise, no other falls. -/
theorem Advances.idxOf {hit : Hit} {hits hits' : List Hit} (h : Advances hit hits hits') :
    (hits'.map Hit.key).idxOf hit.key ≤ (hits.map Hit.key).idxOf hit.key ∧
      ∀ key, key ≠ hit.key → (hits.map Hit.key).idxOf key ≤ (hits'.map Hit.key).idxOf key := by
  obtain ⟨front, between, back, rfl, rfl⟩ := h
  simp only [List.map_append, List.map_cons, List.append_assoc, List.cons_append]
  constructor
  · by_cases hfront : hit.key ∈ front.map Hit.key
    · rw [List.idxOf_append_of_mem hfront, List.idxOf_append_of_mem hfront]
    · rw [List.idxOf_append_of_notMem hfront, List.idxOf_append_of_notMem hfront,
        List.idxOf_cons_self]
      omega
  · intro key hne
    by_cases hfront : key ∈ front.map Hit.key
    · rw [List.idxOf_append_of_mem hfront, List.idxOf_append_of_mem hfront]
    · rw [List.idxOf_append_of_notMem hfront, List.idxOf_append_of_notMem hfront,
        List.idxOf_cons_ne _ (Ne.symm hne)]
      by_cases hbetween : key ∈ between.map Hit.key
      · rw [List.idxOf_append_of_mem hbetween, List.idxOf_append_of_mem hbetween]
        omega
      · rw [List.idxOf_append_of_notMem hbetween, List.idxOf_append_of_notMem hbetween,
          List.idxOf_cons_ne _ (Ne.symm hne)]
        omega

theorem Advances.mem_keys {hit : Hit} {hits hits' : List Hit} (h : Advances hit hits hits')
    (key : Key) : key ∈ hits'.map Hit.key ↔ key ∈ hits.map Hit.key := by
  obtain ⟨front, between, back, rfl, rfl⟩ := h
  simp only [List.map_append, List.map_cons, List.mem_append, List.mem_cons]
  tauto

/-- A better rank contributes no less. -/
theorem contribution_le {weight : ℚ≥0} {rrfK : ℕ} {hits hits' : List Hit} {key : Key}
    (hmem : key ∈ hits'.map Hit.key ↔ key ∈ hits.map Hit.key)
    (hrank : (hits.map Hit.key).idxOf key ≤ (hits'.map Hit.key).idxOf key) :
    contribution weight rrfK hits' key ≤ contribution weight rrfK hits key := by
  unfold contribution
  by_cases h : key ∈ hits.map Hit.key
  · rw [if_pos h, if_pos (hmem.mpr h)]
    have hpos : (0 : ℚ) < rrfK + ((hits.map Hit.key).idxOf key + 1 : ℕ) := by positivity
    have hle : (rrfK + ((hits.map Hit.key).idxOf key + 1 : ℕ) : ℚ) ≤
        rrfK + ((hits'.map Hit.key).idxOf key + 1 : ℕ) := by
      have hcast : ((hits.map Hit.key).idxOf key + 1 : ℕ) ≤ (hits'.map Hit.key).idxOf key + 1 :=
        Nat.succ_le_succ hrank
      gcongr
    exact div_le_div_of_nonneg_left weight.coe_nonneg hpos hle
  · rw [if_neg h, if_neg fun h' => h (hmem.mp h')]

theorem Advances.contribution {weight : ℚ≥0} {rrfK : ℕ} {hit : Hit} {hits hits' : List Hit}
    (h : Advances hit hits hits') :
    contribution weight rrfK hits hit.key ≤ contribution weight rrfK hits' hit.key ∧
      ∀ key, key ≠ hit.key →
        Retrieval.contribution weight rrfK hits' key ≤
          Retrieval.contribution weight rrfK hits key := by
  obtain ⟨hself, hothers⟩ := h.idxOf
  constructor
  · exact contribution_le (h.mem_keys hit.key).symm hself
  · intro key hne
    exact contribution_le (h.mem_keys key) (hothers key hne)

theorem idxOf_take {α : Type*} [BEq α] [LawfulBEq α] (l : List α) (k : ℕ) (a : α) :
    (l.take k).idxOf a = min (l.idxOf a) k := by
  induction l generalizing k with
  | nil => simp
  | cons b l ih =>
      cases k with
      | zero => simp
      | succ k =>
          by_cases hb : b = a
          · subst hb
            simp
          · rw [List.take_succ_cons, List.idxOf_cons_ne _ hb, List.idxOf_cons_ne _ hb, ih]
            exact (Nat.succ_min_succ _ _).symm

/-! ## The ranking -/

/-- The keys of the output. -/
def fusedKeys (semantic keyword : List Hit) (k rrfK : ℕ) (semanticWeight keywordWeight : ℚ≥0) :
    List Key :=
  (reciprocalRankFusion semantic keyword k rrfK semanticWeight keywordWeight).map Candidate.key

theorem fusedKeys_eq (semantic keyword : List Hit) (k rrfK : ℕ)
    (semanticWeight keywordWeight : ℚ≥0) :
    fusedKeys semantic keyword k rrfK semanticWeight keywordWeight =
      ((sortedCandidates semantic keyword rrfK semanticWeight keywordWeight).map
        Candidate.key).take k := by
  rw [← List.map_take]
  rfl

/-- How many keys the lists have. -/
def keyCount (semantic keyword : List Hit) : ℕ :=
  ((semantic ++ keyword).map Hit.key).toFinset.card

/-- The fusion of two lists is a ranking of their keys by the exact score. -/
structure WellBehaved (semantic keyword : List Hit) (rrfK : ℕ)
    (semanticWeight keywordWeight : ℚ≥0) : Prop where
  /-- With room for all keys each of them comes once. -/
  once : ∀ k, keyCount semantic keyword ≤ k →
    (fusedKeys semantic keyword k rrfK semanticWeight keywordWeight).Nodup ∧
      ∀ key, key ∈ fusedKeys semantic keyword k rrfK semanticWeight keywordWeight ↔
        key ∈ semantic.map Hit.key ∨ key ∈ keyword.map Hit.key
  scored : ∀ k, ∀ c ∈ reciprocalRankFusion semantic keyword k rrfK semanticWeight keywordWeight,
    c.fusedScore = some (exactScore semantic keyword rrfK semanticWeight keywordWeight c.key)
  sorted : ∀ k, Ranked (exactScore semantic keyword rrfK semanticWeight keywordWeight) keyOrder
    (fusedKeys semantic keyword k rrfK semanticWeight keywordWeight)
  symmetric : ∀ k, fusedKeys semantic keyword k rrfK semanticWeight keywordWeight =
    fusedKeys keyword semantic k rrfK keywordWeight semanticWeight
  isPrefix : ∀ k k', k ≤ k' →
    reciprocalRankFusion semantic keyword k rrfK semanticWeight keywordWeight =
      (reciprocalRankFusion semantic keyword k' rrfK semanticWeight keywordWeight).take k
  /-- A hit that moves up in one list does not move down in the output. -/
  semantic_monotone : ∀ hit semantic', Advances hit semantic semantic' → ∀ k,
    (fusedKeys semantic' keyword k rrfK semanticWeight keywordWeight).idxOf hit.key ≤
      (fusedKeys semantic keyword k rrfK semanticWeight keywordWeight).idxOf hit.key
  keyword_monotone : ∀ hit keyword', Advances hit keyword keyword' → ∀ k,
    (fusedKeys semantic keyword' k rrfK semanticWeight keywordWeight).idxOf hit.key ≤
      (fusedKeys semantic keyword k rrfK semanticWeight keywordWeight).idxOf hit.key

section Ranking

variable (semantic keyword : List Hit) (rrfK : ℕ) (semanticWeight keywordWeight : ℚ≥0)

theorem length_sorted :
    ((sortedCandidates semantic keyword rrfK semanticWeight keywordWeight).map
      Candidate.key).length = keyCount semantic keyword := by
  rw [keyCount, ← List.toFinset_card_of_nodup nodup_keys_sorted]
  congr 1
  ext key
  rw [List.mem_toFinset, List.mem_toFinset, mem_keys_sorted, List.map_append, List.mem_append]

theorem fusedKeys_symmetric (k : ℕ) :
    fusedKeys semantic keyword k rrfK semanticWeight keywordWeight =
      fusedKeys keyword semantic k rrfK keywordWeight semanticWeight := by
  rw [fusedKeys_eq, fusedKeys_eq, keys_sorted_comm]

theorem fusedKeys_monotone {hit : Hit} {semantic' : List Hit} (h : Advances hit semantic semantic')
    (k : ℕ) :
    (fusedKeys semantic' keyword k rrfK semanticWeight keywordWeight).idxOf hit.key ≤
      (fusedKeys semantic keyword k rrfK semanticWeight keywordWeight).idxOf hit.key := by
  obtain ⟨hgain, hloss⟩ := @Advances.contribution semanticWeight rrfK _ _ _ h
  have hmem : hit.key ∈ semantic.map Hit.key := by
    obtain ⟨front, between, back, rfl, -⟩ := h
    exact List.mem_map.mpr ⟨hit, by simp, rfl⟩
  have hplace := Ranked.idxOf_le
    (@ranked_sorted semantic keyword rrfK semanticWeight keywordWeight)
    (@ranked_sorted semantic' keyword rrfK semanticWeight keywordWeight)
    (fun key => by rw [mem_keys_sorted, mem_keys_sorted, h.mem_keys])
    ((mem_keys_sorted hit.key).mpr (Or.inl hmem)) (add_le_add_left hgain _)
    fun key hne => add_le_add_left (hloss key hne) _
  rw [fusedKeys_eq, fusedKeys_eq, idxOf_take, idxOf_take]
  exact min_le_min_right k hplace

/-- `reciprocal_rank_fusion` is a well-behaved ranking. -/
theorem reciprocalRankFusion_wellBehaved :
    WellBehaved semantic keyword rrfK semanticWeight keywordWeight := by
  constructor
  · intro k hk
    have hall : fusedKeys semantic keyword k rrfK semanticWeight keywordWeight =
        (sortedCandidates semantic keyword rrfK semanticWeight keywordWeight).map
          Candidate.key := by
      rw [fusedKeys_eq]
      apply List.take_of_length_le
      rw [length_sorted]
      exact hk
    rw [hall]
    exact ⟨nodup_keys_sorted, mem_keys_sorted⟩
  · intro k c hc
    exact fusedScore_sorted (List.mem_of_mem_take hc)
  · intro k
    rw [fusedKeys_eq]
    exact List.Pairwise.sublist (List.take_sublist k _) ranked_sorted
  · intro k
    exact fusedKeys_symmetric semantic keyword rrfK semanticWeight keywordWeight k
  · intro k k' hk
    show (sortedCandidates semantic keyword rrfK semanticWeight keywordWeight).take k =
      ((sortedCandidates semantic keyword rrfK semanticWeight keywordWeight).take k').take k
    rw [List.take_take, Nat.min_eq_left hk]
  · intro hit semantic' h k
    exact fusedKeys_monotone semantic keyword rrfK semanticWeight keywordWeight h k
  · intro hit keyword' h k
    rw [fusedKeys_symmetric semantic keyword', fusedKeys_symmetric semantic keyword]
    exact fusedKeys_monotone keyword semantic rrfK keywordWeight semanticWeight h k

end Ranking

end CrawlTrove.Retrieval
