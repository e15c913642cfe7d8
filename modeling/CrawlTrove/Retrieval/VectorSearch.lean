import CrawlTrove.Ranking.Nearest
import CrawlTrove.Retrieval.Filters

/-!
# Filtered search for the nearest chunks

`search` (`app/vecindex.py`): the nearest vectors are asked for, those whose chunk passes the
filters are kept, and while these are too few twice as many vectors are asked for. What the
extension answers to a query of a width is a parameter; a query may fail. The model returns
the answers with the hits, which nothing reads.
-/

namespace CrawlTrove.Retrieval.Vecindex

open Web (Text)
open Ranking

/-! ## The index -/

/-- A row of `chunks`, with the metadata decoded. -/
structure ChunkRow where
  kind : Text
  ref : Text := []
  url : Option Text := none
  chunkIndex : ℤ := 0
  snippet : Text := []
  metadata : Meta := {}

/-- The chunks under their row ids, and for each how far its vector is from the query. -/
structure Index where
  dim : Option ℕ
  chunks : List (ℕ × ChunkRow)
  distance : ℕ → ℚ
  distinct : (chunks.map Prod.fst).Nodup

structure VectorHit where
  kind : Text
  ref : Text
  url : Option Text
  chunkIndex : ℤ
  snippet : Text
  distance : ℚ
  score : ℚ
  metadata : Meta

/-- A row that the extension returns: a row id and a distance. -/
abbrev Neighbour := ℕ × ℚ

/-- What the extension answers to a query of a width, `none` if it fails. -/
abbrev Knn := ℕ → Option (List Neighbour)

namespace Index

/-- The table of the extension. -/
def vectors (index : Index) : List Neighbour :=
  index.chunks.map fun c => (c.1, index.distance c.1)

def total (index : Index) : ℕ := index.chunks.length

end Index

/-- The arguments of `search`, but for the vector, of which only its length is read. -/
structure Query where
  length : ℕ
  kind : Option Text := none
  k : ℕ := 10
  filters : List (Text × Text) := []

/-! ## The search -/

/-- A neighbour whose chunk passes the filters. -/
def hitOf (r : Rendering) (index : Index) (query : Query) (v : Neighbour) : Option VectorHit :=
  match index.chunks.lookup v.1 with
  | none => none
  | some row =>
      if matchesFilters r row.kind row.metadata query.kind query.filters then
        some {
          kind := row.kind
          ref := row.ref
          url := row.url
          chunkIndex := row.chunkIndex
          snippet := row.snippet
          distance := v.2
          score := 1 / (1 + v.2)
          metadata := row.metadata }
      else none

/-- The inner loop; whether it returns. -/
def collect (r : Rendering) (index : Index) (query : Query) (out : List VectorHit) :
    List Neighbour → Bool × List VectorHit
  | [] => (false, out)
  | v :: rows =>
      match hitOf r index query v with
      | none => collect r index query out rows
      | some hit =>
          let out := out ++ [hit]
          if query.k ≤ out.length then (true, out) else collect r index query out rows

/-- The outer loop, with the answers so far. -/
def searchFrom (r : Rendering) (index : Index) (knn : Knn) (query : Query) :
    ℕ → List (Option (List Neighbour)) → ℕ →
      Option (List (Option (List Neighbour)) × List VectorHit)
  | 0, _, _ => none
  | fuel + 1, answers, candidateK =>
      match knn candidateK with
      | none => some (answers ++ [none], [])
      | some rows =>
          let (returned, out) := collect r index query [] rows
          if returned || index.total ≤ candidateK then some (answers ++ [some rows], out)
          else searchFrom r index knn query fuel (answers ++ [some rows])
            (min index.total (candidateK * 2))

def filtered (query : Query) : Bool := (requested query.kind).isSome || query.filters ≠ []

/-- How many candidates are asked for first. -/
def firstWidth (index : Index) (query : Query) : ℕ :=
  if filtered query then min index.total (max (query.k * 10) 50) else min index.total query.k

/-- `search`, of an index that could be opened; `none` when the fuel does not suffice. -/
def search (r : Rendering) (index : Index) (knn : Knn) (query : Query) (fuel : ℕ) :
    Option (List (Option (List Neighbour)) × List VectorHit) :=
  if index.dim ≠ some query.length ∨ index.total = 0 then some ([], [])
  else searchFrom r index knn query fuel [] (firstWidth index query)

/-! ## One query -/

/-- The hits among the neighbours. -/
def accepted (r : Rendering) (index : Index) (query : Query) (rows : List Neighbour) :
    List VectorHit :=
  rows.filterMap (hitOf r index query)

section
variable {r : Rendering} {index : Index} {query : Query}

theorem collect_eq (rows : List Neighbour) : ∀ out : List VectorHit, out.length < query.k →
    collect r index query out rows =
      (decide (query.k ≤ out.length + (accepted r index query rows).length),
        (out ++ accepted r index query rows).take query.k) := by
  induction rows with
  | nil =>
      intro out hout
      have htake : out.take query.k = out := List.take_of_length_le hout.le
      simp [collect, accepted, htake, hout]
  | cons v rows ih =>
      intro out hout
      unfold collect
      cases hhit : hitOf r index query v with
      | none =>
          have haccepted : accepted r index query (v :: rows) = accepted r index query rows :=
            List.filterMap_cons_none hhit
          rw [haccepted]
          exact ih out hout
      | some hit =>
          have haccepted : accepted r index query (v :: rows) =
              hit :: accepted r index query rows := List.filterMap_cons_some hhit
          rw [haccepted]
          simp only
          by_cases hfull : query.k ≤ (out ++ [hit]).length
          · have htake : (out ++ hit :: accepted r index query rows).take query.k =
                out ++ [hit] := by
              rw [← List.singleton_append, ← List.append_assoc,
                List.take_append_of_le_length hfull]
              apply List.take_of_length_le
              simp at hfull ⊢
              omega
            rw [if_pos hfull, htake]
            simp at hfull ⊢
            omega
          · rw [if_neg hfull, ih _ (by omega), List.append_assoc, List.singleton_append]
            simp only [List.length_append, List.length_cons, List.length_nil, Prod.mk.injEq,
              and_true]
            congr 1
            apply propext
            omega

/-- The first hits of a query, and whether they are enough. -/
theorem collect_nil (hk : 1 ≤ query.k) (rows : List Neighbour) :
    collect r index query [] rows =
      (decide (query.k ≤ (accepted r index query rows).length),
        (accepted r index query rows).take query.k) := by
  have h := @collect_eq r index query rows [] hk
  simpa using h

end

/-! ## The queries of a search -/

/-- How many neighbours the queries ask for, one after the other. -/
def width (index : Index) (query : Query) (i : ℕ) : ℕ :=
  min index.total (firstWidth index query * 2 ^ i)

theorem width_zero (index : Index) (query : Query) :
    width index query 0 = firstWidth index query := by
  have hle : firstWidth index query ≤ index.total := by
    unfold firstWidth
    split <;> exact min_le_left ..
  rw [width, pow_zero, mul_one, min_eq_right hle]

theorem width_succ (index : Index) (query : Query) (i : ℕ) :
    width index query (i + 1) = min index.total (width index query i * 2) := by
  unfold width
  rw [pow_succ, ← mul_assoc]
  omega

section
variable {r : Rendering} {index : Index} {knn : Knn} {query : Query}

theorem width_pos (hk : 1 ≤ query.k) (htotal : index.total ≠ 0) (i : ℕ) :
    1 ≤ width index query i := by
  have hfirst : 1 ≤ firstWidth index query := by
    unfold firstWidth
    split <;> omega
  have hpow : 1 ≤ firstWidth index query * 2 ^ i := Nat.mul_pos hfirst (Nat.two_pow_pos i)
  unfold width
  omega

/-- The search goes on behind a query: it has not failed, has not brought enough hits and has
not asked for everything. -/
def GoesOn (r : Rendering) (index : Index) (knn : Knn) (query : Query) (i : ℕ) : Prop :=
  ∃ rows, knn (width index query i) = some rows ∧
    (accepted r index query rows).length < query.k ∧ width index query i < index.total

/-- The answers to so many queries. -/
def answersTo (index : Index) (knn : Knn) (query : Query) (n : ℕ) :
    List (Option (List Neighbour)) :=
  (List.range n).map fun i => knn (width index query i)

theorem answersTo_succ (n : ℕ) :
    answersTo index knn query (n + 1) =
      answersTo index knn query n ++ [knn (width index query n)] := by
  simp [answersTo, List.range_succ]

/-- How a search ends, with the query that was its last. -/
inductive Ends (r : Rendering) (index : Index) (knn : Knn) (query : Query) (i : ℕ) :
    List VectorHit → Prop
  | failed (hknn : knn (width index query i) = none) : Ends r index knn query i []
  | found {rows : List Neighbour} (hknn : knn (width index query i) = some rows)
      (henough : query.k ≤ (accepted r index query rows).length ∨
        index.total ≤ width index query i) :
      Ends r index knn query i ((accepted r index query rows).take query.k)

theorem searchFrom_ends (hk : 1 ≤ query.k) (htotal : index.total ≠ 0) (fuel : ℕ) :
    ∀ i, (∀ j < i, GoesOn r index knn query j) → index.total < width index query i + fuel →
      ∃ n result,
        searchFrom r index knn query fuel (answersTo index knn query i)
            (width index query i) =
          some (answersTo index knn query (n + 1), result) ∧
        (∀ j < n, GoesOn r index knn query j) ∧ Ends r index knn query n result := by
  induction fuel with
  | zero =>
      intro i _ hfuel
      have hle : width index query i ≤ index.total := min_le_left ..
      omega
  | succ fuel ih =>
      intro i hbefore hfuel
      unfold searchFrom
      cases hknn : knn (width index query i) with
      | none =>
          refine ⟨i, [], ?_, hbefore, Ends.failed hknn⟩
          rw [answersTo_succ, hknn]
      | some rows =>
          simp only [collect_nil hk]
          by_cases hstop : query.k ≤ (accepted r index query rows).length ∨
              index.total ≤ width index query i
          · refine ⟨i, _, ?_, hbefore, Ends.found hknn hstop⟩
            rw [if_pos (by simpa using hstop), answersTo_succ, hknn]
          · rw [if_neg (by simpa using hstop), ← width_succ, ← hknn, ← answersTo_succ]
            obtain ⟨hshort, hpart⟩ := not_or.mp hstop
            apply ih (i + 1)
            · intro j hj
              rcases Nat.lt_succ_iff_lt_or_eq.mp hj with hj | rfl
              · exact hbefore j hj
              · exact ⟨rows, hknn, not_le.mp hshort, not_le.mp hpart⟩
            · have hpos := width_pos hk htotal i
              rw [width_succ]
              omega

/-! ## The last answer -/

/-- The neighbours of the last query that has not failed. -/
def lastRows (answers : List (Option (List Neighbour))) : List Neighbour :=
  answers.reduceOption.getLast?.getD []

theorem lastRows_some (answers : List (Option (List Neighbour))) (rows : List Neighbour) :
    lastRows (answers ++ [some rows]) = rows := by
  simp [lastRows, List.reduceOption_append]

theorem lastRows_none (answers : List (Option (List Neighbour))) :
    lastRows (answers ++ [none]) = lastRows answers := by
  simp [lastRows, List.reduceOption_append]

/-- No query fails behind one that has brought a hit. -/
def FailsEmpty (r : Rendering) (index : Index) (knn : Knn) (query : Query) : Prop :=
  index.dim = some query.length → ∀ i rows, (∀ j ≤ i, GoesOn r index knn query j) →
    knn (width index query i) = some rows → knn (width index query (i + 1)) = none →
      accepted r index query rows = []

theorem take_eq_nil_iff {hits : List VectorHit} {k : ℕ} (hk : 1 ≤ k) :
    [] = hits.take k ↔ hits = [] := by
  rw [eq_comm, List.take_eq_nil_iff]
  exact or_iff_right (by omega)

theorem GoesOn.knn_ne_none {i : ℕ} (h : GoesOn r index knn query i) :
    knn (width index query i) ≠ none := by
  obtain ⟨rows, hknn, -⟩ := h
  rw [hknn]
  exact Option.some_ne_none rows

/-- A search keeps what it has found unless its last query fails behind hits. -/
theorem ends_keeps_iff (hk : 1 ≤ query.k) (hdim : index.dim = some query.length) {n : ℕ}
    {result : List VectorHit} (hbefore : ∀ j < n, GoesOn r index knn query j)
    (h : Ends r index knn query n result) :
    result = (accepted r index query (lastRows (answersTo index knn query (n + 1)))).take
        query.k ↔ FailsEmpty r index knn query := by
  rw [answersTo_succ]
  cases h with
  | failed hknn =>
      rw [hknn, lastRows_none]
      -- only the query in front of the failing one can bring hits that are lost
      have honly : ∀ i, (∀ j ≤ i, GoesOn r index knn query j) →
          knn (width index query (i + 1)) = none → n = i + 1 := by
        intro i hgoes hnone
        by_contra hne
        rcases Nat.lt_or_gt_of_ne hne with hlt | hgt
        · exact (hgoes n (by omega)).knn_ne_none hknn
        · exact (hbefore (i + 1) hgt).knn_ne_none hnone
      cases n with
      | zero =>
          have hnil : accepted r index query (lastRows (answersTo index knn query 0)) = [] := rfl
          rw [hnil]
          refine iff_of_true List.take_nil.symm ?_
          intro _ i rows hgoes _ hnone
          have himpossible := honly i hgoes hnone
          omega
      | succ n =>
          obtain ⟨rows, hrows, -⟩ := hbefore n (Nat.lt_succ_self n)
          rw [answersTo_succ, hrows, lastRows_some, take_eq_nil_iff hk]
          constructor
          · intro hnil _ i rows' hgoes hrows' hnone
            obtain rfl : n = i := Nat.succ_injective (honly i hgoes hnone)
            rw [hrows] at hrows'
            cases hrows'
            exact hnil
          · intro hfails
            exact hfails hdim n rows (fun j hj => hbefore j (Nat.lt_succ_of_le hj)) hrows hknn
  | found hknn henough =>
      rw [hknn, lastRows_some]
      refine iff_of_true rfl ?_
      intro _ i rows' hgoes hrows' hnone
      exfalso
      rcases Nat.lt_or_ge i n with hlt | hge
      · -- the failing query would be one that was answered
        rcases Nat.lt_or_eq_of_le (Nat.succ_le_of_lt hlt) with hlt | rfl
        · exact (hbefore (i + 1) hlt).knn_ne_none hnone
        · rw [hknn] at hnone
          cases hnone
      · obtain ⟨rows'', hrows'', hshort, hpart⟩ := hgoes n hge
        rw [hknn] at hrows''
        cases hrows''
        omega

/-! ## Exactness -/

/-- The chunks that pass the filters, with their distances. -/
def matching (r : Rendering) (index : Index) (query : Query) : List Neighbour :=
  index.vectors.filter fun v => (hitOf r index query v).isSome

theorem length_accepted (rows : List Neighbour) :
    (accepted r index query rows).length =
      (rows.filter fun v => (hitOf r index query v).isSome).length := by
  rw [accepted, ← List.countP_eq_length_filter, List.length_filterMap_eq_countP]

theorem take_accepted (rows : List Neighbour) : ∀ k : ℕ,
    (accepted r index query rows).take k =
      ((rows.filter fun v => (hitOf r index query v).isSome).take k).filterMap
        (hitOf r index query) := by
  induction rows with
  | nil => simp [accepted]
  | cons v rows ih =>
      intro k
      cases hhit : hitOf r index query v with
      | none =>
          rw [List.filter_cons_of_neg (by simp [hhit]), ← ih, accepted,
            List.filterMap_cons_none hhit]
          rfl
      | some hit =>
          rw [List.filter_cons_of_pos (by simp [hhit]), accepted, List.filterMap_cons_some hhit]
          cases k with
          | zero => rfl
          | succ k =>
              rw [List.take_succ_cons, List.take_succ_cons, List.filterMap_cons_some hhit, ← ih]
              rfl

/-- A search terminates. If no query fails its hits are the nearest of all chunks that pass
the filters, and it keeps what its last answer has brought exactly when no query fails behind
one with a hit. -/
theorem search_exact_iff (r : Rendering) (index : Index) (knn : Knn) (query : Query) (fuel : ℕ)
    (hk : 1 ≤ query.k)
    (hknn : ∀ n rows, knn n = some rows → Nearest Prod.snd index.vectors n rows)
    (hfuel : index.total < fuel) :
    ∃ answers result, search r index knn query fuel = some (answers, result) ∧
      (index.dim = some query.length → none ∉ answers →
        ∃ rows, Nearest Prod.snd (matching r index query) query.k rows ∧
          result = rows.filterMap (hitOf r index query)) ∧
      (result = (accepted r index query (lastRows answers)).take query.k ↔
        FailsEmpty r index knn query) := by
  by_cases hrun : index.dim ≠ some query.length ∨ index.total = 0
  · refine ⟨[], [], if_pos hrun, ?_, ?_⟩
    · intro hdim _
      have hempty : index.chunks = [] := by
        have htotal := hrun.resolve_left (not_not.mpr hdim)
        exact List.length_eq_zero_iff.mp htotal
      refine ⟨[], ?_, rfl⟩
      have hmatching : matching r index query = [] := by
        simp [matching, Index.vectors, hempty]
      rw [hmatching]
      exact ⟨by simp, by simp, by simp, by simp, by simp⟩
    · refine iff_of_true (by simp [accepted, lastRows]) ?_
      intro hdim i rows hgoes
      obtain ⟨_, _, _, hpart⟩ := hgoes i le_rfl
      have htotal := hrun.resolve_left (not_not.mpr hdim)
      omega
  · obtain ⟨hdim, htotal⟩ := not_or.mp hrun
    rw [not_not] at hdim
    obtain ⟨n, result, hsearch, hbefore, hends⟩ :=
      @searchFrom_ends r index knn query hk htotal fuel 0 (by simp) (by omega)
    refine ⟨answersTo index knn query (n + 1), result, ?_, ?_, ends_keeps_iff hk hdim hbefore hends⟩
    · rw [search, if_neg hrun, ← width_zero]
      exact hsearch
    · intro _ hnone
      rw [answersTo_succ] at hnone
      cases hends with
      | failed hfailed =>
          rw [hfailed] at hnone
          simp at hnone
      | @found rows hrows henough =>
          have hnearest := hknn _ _ hrows
          rw [length_accepted] at henough
          have hlength : index.vectors.length = index.total := List.length_map ..
          rw [← hlength] at henough
          exact ⟨_, hnearest.take_filter _ henough, take_accepted rows query.k⟩

end

namespace Sample

/-- One chunk of the corpus among fifty pages, nearest to the query. -/
def index : Index where
  dim := some 1
  chunks := (List.range 51).map fun i =>
    (i, { kind := if i = 0 then corpus else "scrape".toList })
  distance := fun i => i
  distinct := by decide +kernel

/-- The extension refuses more than fifty neighbours. -/
def knn : Knn := fun n => if n ≤ 50 then some (index.vectors.take n) else none

def query : Query := { length := 1, kind := some corpus, k := 2 }

theorem knn_nearest : ∀ n rows, knn n = some rows → Nearest Prod.snd index.vectors n rows := by
  intro n rows h
  unfold knn at h
  split at h
  · cases h
    exact Nearest.take (by decide) (by decide) n
  · cases h

/-- The second query fails and the hit of the first is not returned. -/
theorem search_discards :
    (∀ n rows, knn n = some rows → Nearest Prod.snd index.vectors n rows) ∧
      ¬ ∀ answers result,
        search Retrieval.Sample.rendering index knn query 52 = some (answers, result) →
          result = (accepted Retrieval.Sample.rendering index query (lastRows answers)).take
            query.k := by
  refine ⟨knn_nearest, ?_⟩
  intro h
  have hlengths : (search Retrieval.Sample.rendering index knn query 52).map (fun s =>
      (s.2.length, (accepted Retrieval.Sample.rendering index query (lastRows s.1)).length)) =
        some (0, 1) := by
    decide
  obtain ⟨⟨answers, result⟩, hsearch, hlength⟩ := Option.map_eq_some_iff.mp hlengths
  have hresult := congrArg List.length (h answers result hsearch)
  rw [List.length_take] at hresult
  simp only [Prod.mk.injEq] at hlength
  have hk : query.k = 2 := rfl
  omega

theorem search_exact_sample :
    ∃ answers result,
      search Retrieval.Sample.rendering index knn query 52 = some (answers, result) ∧
      (index.dim = some query.length → none ∉ answers →
        ∃ rows, Nearest Prod.snd (matching Retrieval.Sample.rendering index query) query.k rows ∧
          result = rows.filterMap (hitOf Retrieval.Sample.rendering index query)) ∧
      (result = (accepted Retrieval.Sample.rendering index query (lastRows answers)).take
          query.k ↔ FailsEmpty Retrieval.Sample.rendering index knn query) :=
  search_exact_iff Retrieval.Sample.rendering index knn query 52 (by decide) knn_nearest
    (by decide)

end Sample

end CrawlTrove.Retrieval.Vecindex
