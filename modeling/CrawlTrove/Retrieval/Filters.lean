import CrawlTrove.Corpus.Whitespace

/-!
# Two filters over metadata

`_filter_sql` and `_matches_filters` (`app/vecindex.py`): the keyword search lets SQLite
compare what it extracts from the metadata of a chunk, the vector search compares in Python
what it has decoded.
-/

namespace CrawlTrove.Retrieval

open Web (Text)
open Corpus (trim)

/-! ## Metadata -/

/-- A JSON value; a real is kept as its `repr`. -/
inductive Json
  | null
  | bool (b : Bool)
  | int (n : ℤ)
  | real (repr : {t : Text // t ≠ []})
  | string (s : Text)
  | array (items : List Json)
  | object (members : List (Text × Json))

/-- A JSON object, whose keys are distinct. -/
structure Meta where
  members : List (Text × Json) := []
  distinct : (members.map Prod.fst).Nodup := by decide

/-- `meta.get`. -/
def Meta.get (metadata : Meta) (key : Text) : Option Json := metadata.members.lookup key

/-- A value of SQLite, of its storage class. -/
inductive SqlValue
  | null
  | integer (n : ℤ)
  | real (repr : Text)
  | text (s : Text)
deriving DecidableEq

/-- The text has a NUL. -/
def hasNul (s : Text) : Bool := s.contains (Char.ofNat 0)

/-- What the two languages make of a container, and SQLite of what its documentation
leaves open. -/
structure Rendering where
  /-- `str` of a list or of a dictionary. -/
  python : Json → Text
  /-- The minified text that `json_extract` yields, in which a NUL is escaped. -/
  minified : Json → Text
  /-- `json_extract` of a text with a NUL, or of a number that is not finite. -/
  undocumented : Json → SqlValue
  /-- Whether two texts are equal, one of which has a NUL. -/
  nulEqual : Text → Text → Bool
  python_ne_nil : ∀ v, python v ≠ []
  minified_ne_nil : ∀ v, minified v ≠ []
  minified_nul : ∀ v, hasNul (minified v) = false

/-- The `repr` of a real that JSON has no number for. -/
def nonFinite : List Text := ["nan".toList, "inf".toList, "-inf".toList]

/-- The value is one SQLite documents: a number of JSON, a text without a NUL. -/
def Json.documented : Json → Bool
  | .string s => !hasNul s
  | .real t => !nonFinite.contains t.1
  | _ => true

def corpus : Text := "corpus".toList

def tier : Text := "tier".toList

def untiered : Text := "untiered".toList

/-- `FILTER_META_KEYS`. -/
def filterMetaKeys : List (Text × Text) :=
  [("namespace".toList, "namespace".toList), ("bucket".toList, "license_bucket".toList),
    (tier, "quality_tier".toList), ("framework".toList, "framework".toList)]

/-- A filter that is applied: its name, the column of the metadata and the value asked for. -/
structure Filter where
  name : Text
  column : Text
  value : Text
  value_ne_nil : value ≠ []

/-- The filters both functions apply: those with a name that is known and a value. -/
def effective (filters : List (Text × Text)) : List Filter :=
  filters.filterMap fun f =>
    match filterMetaKeys.lookup f.1 with
    | none => none
    | some column =>
        if h : trim f.2 ≠ [] then some { name := f.1, column, value := trim f.2, value_ne_nil := h }
        else none

/-- A kind that was asked for. -/
def requested (kind : Option Text) : Option Text := kind.filter (· ≠ [])

/-! ## In Python -/

def zeros : List Text := ["0.0".toList, "-0.0".toList]

local instance lawfulBEq_text : LawfulBEq Text := inferInstance

/-- `bool(v)`. -/
def Json.truthy : Json → Bool
  | .null => false
  | .bool b => b
  | .int n => n ≠ 0
  | .real t => t.1 ∉ zeros
  | .string s => s ≠ []
  | .array items => !items.isEmpty
  | .object members => !members.isEmpty

/-- `str(v)`. -/
def Json.str (r : Rendering) : Json → Text
  | .null => "None".toList
  | .bool b => if b then "True".toList else "False".toList
  | .int n => (toString n).toList
  | .real t => t.1
  | .string s => s
  | .array items => r.python (.array items)
  | .object members => r.python (.object members)

/-- `str(meta.get(column) or "")`. -/
def actual (r : Rendering) : Option Json → Text
  | none => []
  | some v => if v.truthy then v.str r else []

def Filter.forUntiered (f : Filter) : Bool := f.name = tier ∧ f.value = untiered

/-- A round of the loop of `_matches_filters`. -/
def Filter.matchesPython (r : Rendering) (f : Filter) (v : Option Json) : Bool :=
  if f.forUntiered then actual r v = [] else actual r v = f.value

/-- `_matches_filters`. -/
def matchesFilters (r : Rendering) (rowKind : Text) (metadata : Meta) (kind : Option Text)
    (filters : List (Text × Text)) : Bool :=
  let filters := effective filters
  if (requested kind).any (· ≠ rowKind) then false
  else if filters ≠ [] ∧ rowKind ≠ corpus then false
  else filters.all fun f => f.matchesPython r (metadata.get f.column)

/-! ## In SQL -/

/-- What `json_extract` documents of a value. -/
def Json.extracted (r : Rendering) : Json → SqlValue
  | .null => .null
  | .bool b => .integer (if b then 1 else 0)
  | .int n => .integer n
  | .real t => .real t.1
  | .string s => .text s
  | .array items => .text (r.minified (.array items))
  | .object members => .text (r.minified (.object members))

/-- `json_extract`. -/
def jsonExtract (r : Rendering) : Option Json → SqlValue
  | none => .null
  | some v => if v.documented then v.extracted r else r.undocumented v

/-- A comparison with a text, `none` where it is unknown; other classes never equal it. -/
def SqlValue.equalsText (r : Rendering) : SqlValue → Text → Option Bool
  | .null, _ => none
  | .text s, t => some (if hasNul s || hasNul t then r.nulEqual s t else s = t)
  | _, _ => some false

/-- `coalesce(v, '')`. -/
def SqlValue.coalesceEmpty : SqlValue → SqlValue
  | .null => .text []
  | v => v

/-- The conditions that `_filter_sql` writes. -/
inductive Clause
  | kindIs (kind : Text)
  | extractedIs (column value : Text)
  | extractedEmpty (column : Text)

/-- `_filter_sql`. -/
def filterSql (kind : Option Text) (filters : List (Text × Text)) : List Clause :=
  let filters := effective filters
  let kinds :=
    match requested kind with
    | some k => [Clause.kindIs k]
    | none => if filters ≠ [] then [Clause.kindIs corpus] else []
  kinds ++ filters.map fun f =>
    if f.forUntiered then .extractedEmpty f.column else .extractedIs f.column f.value

/-- What a condition says of a row. -/
def Clause.eval (r : Rendering) (rowKind : Text) (metadata : Meta) : Clause → Option Bool
  | .kindIs kind => (SqlValue.text rowKind).equalsText r kind
  | .extractedIs column value => (jsonExtract r (metadata.get column)).equalsText r value
  | .extractedEmpty column => (jsonExtract r (metadata.get column)).coalesceEmpty.equalsText r []

/-- A row is selected when every condition is true of it. -/
def selects (r : Rendering) (rowKind : Text) (metadata : Meta) (clauses : List Clause) : Bool :=
  clauses.all fun c => c.eval r rowKind metadata = some true

/-! ## Where they differ -/

/-- What SQLite says of a filter. -/
def Filter.matchesSql (r : Rendering) (f : Filter) (v : Option Json) : Bool :=
  if f.forUntiered then (jsonExtract r v).coalesceEmpty.equalsText r [] = some true
  else (jsonExtract r v).equalsText r f.value = some true

/-- What the documentation of SQLite is about: no text has a NUL and numbers are finite. -/
structure Documented (rowKind : Text) (metadata : Meta) (kind : Option Text)
    (filters : List (Text × Text)) : Prop where
  row : hasNul rowKind = false
  asked : ∀ k, requested kind = some k → hasNul k = false
  values : ∀ f ∈ effective filters, hasNul f.value = false
  data : ∀ column v, metadata.get column = some v → v.documented = true

/-- The values that the two read differently: for the untiered a value that is false but is
neither null nor text, else a number, a truth value or a container that one of them writes
like the value asked for. -/
def Filter.Divergent (r : Rendering) (f : Filter) : Json → Prop
  | .null => False
  | .string _ => False
  | .array items =>
      if f.forUntiered then items = []
      else ¬ ((items ≠ [] ∧ r.python (.array items) = f.value) ↔
        r.minified (.array items) = f.value)
  | .object members =>
      if f.forUntiered then members = []
      else ¬ ((members ≠ [] ∧ r.python (.object members) = f.value) ↔
        r.minified (.object members) = f.value)
  | v => if f.forUntiered then v.truthy = false else v.truthy = true ∧ v.str r = f.value

/-- The filter meets such a value in the metadata. -/
def Filter.Diverges (r : Rendering) (metadata : Meta) (f : Filter) : Prop :=
  ∃ v, metadata.get f.column = some v ∧ f.Divergent r v

theorem toString_ne_nil (n : ℤ) : (toString n).toList ≠ [] := by
  cases n with
  | ofNat n =>
      intro h
      have hempty : n.repr = "" := String.toList_eq_nil_iff.mp h
      exact Nat.repr_ne_empty hempty
  | negSucc n =>
      show ("-" ++ (n + 1).repr).toList ≠ []
      simp

theorem matchesPython_iff {r : Rendering} {f : Filter} {v : Json} (hstr : v.str r ≠ []) :
    f.matchesPython r (some v) = true ↔
      if f.forUntiered then v.truthy = false else v.truthy = true ∧ v.str r = f.value := by
  have hvalue := f.value_ne_nil.symm
  unfold Filter.matchesPython actual
  cases htruthy : v.truthy with
  | true => cases f.forUntiered <;> simp [hstr, htruthy]
  | false => cases f.forUntiered <;> simp [hvalue, htruthy]

/-- A value of another class than text: SQLite accepts it nowhere. -/
theorem matches_scalar {r : Rendering} {f : Filter} {v : Json}
    (hempty : (jsonExtract r (some v)).coalesceEmpty.equalsText r [] = some false)
    (hequals : (jsonExtract r (some v)).equalsText r f.value = some false) (hstr : v.str r ≠ []) :
    f.matchesSql r (some v) = f.matchesPython r (some v) ↔
      ¬ if f.forUntiered then v.truthy = false else v.truthy = true ∧ v.str r = f.value := by
  have hsql : f.matchesSql r (some v) = false := by
    unfold Filter.matchesSql
    rw [hempty, hequals]
    split <;> rfl
  rw [hsql, ← matchesPython_iff hstr, Bool.not_eq_true, eq_comm]

/-- A container, which both write as a text. -/
theorem matches_container {r : Rendering} {f : Filter} {v : Json} {text : Text}
    (hvalue : hasNul f.value = false) (hextract : jsonExtract r (some v) = .text text)
    (htext : text ≠ []) (hnul : hasNul text = false) (hstr : v.str r ≠ []) :
    f.matchesSql r (some v) = f.matchesPython r (some v) ↔
      ¬ if f.forUntiered then v.truthy = false
        else ¬ ((v.truthy = true ∧ v.str r = f.value) ↔ text = f.value) := by
  have hsql : f.matchesSql r (some v) = true ↔ f.forUntiered = false ∧ text = f.value := by
    unfold Filter.matchesSql
    rw [hextract]
    have hempty : hasNul [] = false := rfl
    cases f.forUntiered <;>
      simp [SqlValue.equalsText, SqlValue.coalesceEmpty, htext, hnul, hvalue, hempty]
  rw [Bool.eq_iff_iff, hsql, matchesPython_iff hstr]
  cases f.forUntiered with
  | true => simp
  | false => simp [iff_comm]

/-- The two agree on every other value that SQLite documents. -/
theorem matches_iff (r : Rendering) {f : Filter} (hf : hasNul f.value = false) {v : Option Json}
    (hv : ∀ w, v = some w → w.documented = true) :
    f.matchesSql r v = f.matchesPython r v ↔ ¬ ∃ w, v = some w ∧ f.Divergent r w := by
  have hvalue := f.value_ne_nil.symm
  cases v with
  | none =>
      simp [Filter.matchesSql, Filter.matchesPython, jsonExtract, actual, SqlValue.equalsText,
        SqlValue.coalesceEmpty, hvalue, hasNul]
  | some v =>
      have hdoc := hv v rfl
      simp only [Option.some.injEq, exists_eq_left']
      cases v with
      | null =>
          simp [Filter.matchesSql, Filter.matchesPython, jsonExtract, Json.documented,
            Json.extracted, actual, SqlValue.equalsText, SqlValue.coalesceEmpty,
            Filter.Divergent, Json.truthy, hvalue, hasNul]
      | bool b =>
          apply matches_scalar
          · rfl
          · rfl
          · cases b <;> exact of_decide_eq_false rfl
      | int n =>
          apply matches_scalar
          · rfl
          · rfl
          · exact toString_ne_nil n
      | real t =>
          -- a documented real is a number of JSON, and is extracted as it is written
          have hextract : jsonExtract r (some (.real t)) = .real t.1 := if_pos hdoc
          apply matches_scalar
          · rw [hextract]
            rfl
          · rw [hextract]
            rfl
          · exact t.2
      | string s =>
          -- without a NUL SQLite compares the whole text, as Python does
          have hsame : actual r (some (.string s)) = s := by
            unfold actual
            cases s <;> rfl
          have hextract : jsonExtract r (some (.string s)) = .text s := if_pos hdoc
          have hnul : hasNul s = false := by simpa [Json.documented] using hdoc
          have hempty : hasNul [] = false := rfl
          simp [Filter.matchesSql, Filter.matchesPython, hextract, hsame, hnul, hf, hempty,
            SqlValue.equalsText, SqlValue.coalesceEmpty, Filter.Divergent]
      | array items =>
          have hcontainer := matches_container (r := r) (f := f) (v := .array items) hf rfl
            (r.minified_ne_nil _) (r.minified_nul _) (r.python_ne_nil _)
          rw [hcontainer]
          simp [Filter.Divergent, Json.truthy, Json.str]
      | object members =>
          have hcontainer := matches_container (r := r) (f := f) (v := .object members) hf rfl
            (r.minified_ne_nil _) (r.minified_nul _) (r.python_ne_nil _)
          rw [hcontainer]
          simp [Filter.Divergent, Json.truthy, Json.str]

theorem eval_filter (r : Rendering) (rowKind : Text) (metadata : Meta) (f : Filter) :
    decide ((if f.forUntiered then Clause.extractedEmpty f.column
      else Clause.extractedIs f.column f.value).eval r rowKind metadata = some true) =
      f.matchesSql r (metadata.get f.column) := by
  unfold Filter.matchesSql
  split <;> rfl

theorem all_filters (r : Rendering) (rowKind : Text) (metadata : Meta) (filters : List Filter) :
    selects r rowKind metadata (filters.map fun f =>
      if f.forUntiered then .extractedEmpty f.column else .extractedIs f.column f.value) =
      filters.all fun f => f.matchesSql r (metadata.get f.column) := by
  unfold selects
  rw [List.all_map]
  congr 1
  funext f
  exact eval_filter r rowKind metadata f

theorem eval_kindIs (r : Rendering) {rowKind k : Text} (hrow : hasNul rowKind = false)
    (hk : hasNul k = false) (metadata : Meta) :
    decide ((Clause.kindIs k).eval r rowKind metadata = some true) = decide (rowKind = k) := by
  simp [Clause.eval, SqlValue.equalsText, hrow, hk]

theorem selects_of_requested {kind : Option Text} {k rowKind : Text} {metadata : Meta}
    {filters : List (Text × Text)} (h : requested kind = some k)
    (hdoc : Documented rowKind metadata kind filters) (r : Rendering) :
    selects r rowKind metadata (filterSql kind filters) =
      (decide (rowKind = k) &&
        (effective filters).all fun f => f.matchesSql r (metadata.get f.column)) := by
  rw [← all_filters r rowKind, ← eval_kindIs r hdoc.row (hdoc.asked k h) metadata]
  simp only [filterSql, h]
  rfl

theorem selects_of_none {kind : Option Text} {rowKind : Text} {metadata : Meta}
    {filters : List (Text × Text)} (h : requested kind = none)
    (hdoc : Documented rowKind metadata kind filters) (r : Rendering)
    (hne : effective filters ≠ []) :
    selects r rowKind metadata (filterSql kind filters) =
      (decide (rowKind = corpus) &&
        (effective filters).all fun f => f.matchesSql r (metadata.get f.column)) := by
  rw [← all_filters r rowKind, ← eval_kindIs r hdoc.row (by decide) metadata]
  simp only [filterSql, h, if_pos hne]
  rfl

theorem matchesFilters_of_kind {rowKind : Text} {kind : Option Text}
    (h : (requested kind).any (· ≠ rowKind) = false) (r : Rendering) (metadata : Meta)
    {filters : List (Text × Text)} (hne : effective filters ≠ []) :
    matchesFilters r rowKind metadata kind filters =
      (decide (rowKind = corpus) &&
        (effective filters).all fun f => f.matchesPython r (metadata.get f.column)) := by
  simp only [matchesFilters, h]
  by_cases hcorpus : rowKind = corpus
  · simp [hcorpus]
  · simp [hcorpus, hne]

/-- Two conjunctions over the filters. -/
theorem all_eq_all_iff {filters : List Filter} {metadata : Meta}
    (hvalues : ∀ f ∈ filters, hasNul f.value = false)
    (hdata : ∀ column v, metadata.get column = some v → v.documented = true) (r : Rendering) :
    (filters.all fun f => f.matchesSql r (metadata.get f.column)) =
        (filters.all fun f => f.matchesPython r (metadata.get f.column)) ↔
      (∀ f ∈ filters, ¬ f.Diverges r metadata) ∨
        (∃ f ∈ filters, f.matchesSql r (metadata.get f.column) = false) ∧
          ∃ f ∈ filters, f.matchesPython r (metadata.get f.column) = false := by
  constructor
  · intro h
    cases hall : filters.all fun f => f.matchesSql r (metadata.get f.column) with
    | true =>
        -- both accept, so no filter is read differently
        left
        intro f hf
        rw [Filter.Diverges, ← matches_iff r (hvalues f hf) (hdata f.column),
          List.all_eq_true.mp hall f hf]
        rw [hall] at h
        exact (List.all_eq_true.mp h.symm f hf).symm
    | false =>
        -- both reject, maybe for different filters
        right
        rw [hall] at h
        obtain ⟨f, hf, hsql⟩ := List.all_eq_false.mp hall
        obtain ⟨g, hg, hpython⟩ := List.all_eq_false.mp h.symm
        exact ⟨⟨f, hf, by simpa using hsql⟩, g, hg, by simpa using hpython⟩
  · rintro (h | ⟨⟨f, hf, hsql⟩, g, hg, hpython⟩)
    · rw [Bool.eq_iff_iff, List.all_eq_true, List.all_eq_true]
      apply forall₂_congr
      intro f hf
      rw [(matches_iff r (hvalues f hf) (hdata f.column)).mpr (h f hf)]
    · rw [List.all_eq_false.mpr ⟨f, hf, by simp [hsql]⟩,
        List.all_eq_false.mpr ⟨g, hg, by simp [hpython]⟩]

/-- The row is not of a kind that both look at, or the filters do not tell them apart: a row of
another kind than the corpus fails one in SQL as well, and for a row of the corpus none meets
a value they read differently, or each of them finds one that fails. -/
def Agreed (r : Rendering) (rowKind : Text) (metadata : Meta) (kind : Option Text)
    (filters : List (Text × Text)) : Prop :=
  effective filters = [] ∨
    (∃ k, requested kind = some k ∧ rowKind ≠ k) ∨
    (requested kind = none ∧ rowKind ≠ corpus) ∨
    (rowKind ≠ corpus ∧
      ∃ f ∈ effective filters, f.matchesSql r (metadata.get f.column) = false) ∨
    (rowKind = corpus ∧
      ((∀ f ∈ effective filters, ¬ f.Diverges r metadata) ∨
        (∃ f ∈ effective filters, f.matchesSql r (metadata.get f.column) = false) ∧
          ∃ f ∈ effective filters, f.matchesPython r (metadata.get f.column) = false))

theorem requested_any {kind : Option Text} {rowKind : Text} :
    (requested kind).any (· ≠ rowKind) = true ↔ ∃ k, requested kind = some k ∧ rowKind ≠ k := by
  cases requested kind with
  | none => simp
  | some k =>
      simp only [Option.any_some, decide_eq_true_eq, Option.some.injEq, exists_eq_left']
      exact ne_comm

/-- As far as SQLite is documented, SQL and Python restrict a search to the same chunks exactly
when they agree so. -/
theorem selects_eq_matchesFilters_iff (r : Rendering) (rowKind : Text) (metadata : Meta)
    (kind : Option Text) (filters : List (Text × Text))
    (hdoc : Documented rowKind metadata kind filters) :
    selects r rowKind metadata (filterSql kind filters) =
        matchesFilters r rowKind metadata kind filters ↔
      Agreed r rowKind metadata kind filters := by
  by_cases hF : effective filters = []
  · refine iff_of_true ?_ (Or.inl hF)
    cases hrequested : requested kind with
    | none => simp [selects, filterSql, matchesFilters, hF, hrequested]
    | some k =>
        rw [selects_of_requested hrequested hdoc]
        by_cases hk : rowKind = k
        · simp [matchesFilters, hF, hrequested, hk]
        · simp [matchesFilters, hF, hrequested, hk, Ne.symm hk]
  · have hcorpus_iff : rowKind = corpus → (Agreed r rowKind metadata kind filters ↔
        (∃ k, requested kind = some k ∧ rowKind ≠ k) ∨
          (∀ f ∈ effective filters, ¬ f.Diverges r metadata) ∨
            (∃ f ∈ effective filters, f.matchesSql r (metadata.get f.column) = false) ∧
              ∃ f ∈ effective filters, f.matchesPython r (metadata.get f.column) = false) := by
      intro hcorpus
      simp [Agreed, hF, hcorpus]
    by_cases hkind : ∃ k, requested kind = some k ∧ rowKind ≠ k
    · -- neither looks at a row of another kind
      refine iff_of_true ?_ (Or.inr (Or.inl hkind))
      obtain ⟨k, hrequested, hk⟩ := hkind
      rw [selects_of_requested hrequested hdoc]
      simp [matchesFilters, hrequested, hk, Ne.symm hk]
    · have hany : (requested kind).any (· ≠ rowKind) = false := by
        rw [← Bool.not_eq_true, requested_any]
        exact hkind
      rw [matchesFilters_of_kind hany r metadata hF]
      have hequal : ∀ k, requested kind = some k → rowKind = k := by
        intro k hrequested
        by_contra hne
        exact hkind ⟨k, hrequested, hne⟩
      by_cases hcorpus : rowKind = corpus
      · rw [hcorpus_iff hcorpus, or_iff_right hkind, ← all_eq_all_iff hdoc.values hdoc.data]
        rw [decide_eq_true hcorpus, Bool.true_and]
        cases hrequested : requested kind with
        | none =>
            rw [selects_of_none hrequested hdoc r hF, decide_eq_true hcorpus,
              Bool.true_and]
        | some k =>
            rw [selects_of_requested hrequested hdoc, decide_eq_true (hequal k hrequested),
              Bool.true_and]
      · rw [decide_eq_false hcorpus, Bool.false_and]
        cases hrequested : requested kind with
        | none =>
            rw [selects_of_none hrequested hdoc r hF, decide_eq_false hcorpus]
            exact iff_of_true rfl (Or.inr (Or.inr (Or.inl ⟨hrequested, hcorpus⟩)))
        | some k =>
            -- SQL does not ask for the corpus when another kind is requested
            rw [selects_of_requested hrequested hdoc, decide_eq_true (hequal k hrequested),
              Bool.true_and, List.all_eq_false]
            simp only [Bool.not_eq_true]
            constructor
            · intro hfails
              exact Or.inr (Or.inr (Or.inr (Or.inl ⟨hcorpus, hfails⟩)))
            · rintro (h | h | ⟨h, -⟩ | ⟨-, h⟩ | ⟨h, -⟩)
              · exact absurd h hF
              · exact absurd h hkind
              · rw [hrequested] at h
                cases h
              · exact h
              · exact absurd h hcorpus

namespace Sample

/-- Texts for containers, as the sample needs none. -/
def rendering : Rendering where
  python := fun _ => "[]".toList
  minified := fun _ => "[]".toList
  undocumented := fun _ => .null
  nulEqual := fun _ _ => false
  python_ne_nil := fun _ => by decide
  minified_ne_nil := fun _ => by decide
  minified_nul := fun _ => rfl

/-- A scraped page without a tier is selected for the untiered, which Python rejects. -/
theorem filters_disagree :
    selects rendering "scrape".toList {}
        (filterSql (some "scrape".toList) [(tier, untiered)]) ≠
      matchesFilters rendering "scrape".toList {} (some "scrape".toList) [(tier, untiered)] := by
  decide

/-- A row of the corpus whose bucket is the number asked for: a text in Python only. -/
def numbered : Meta where
  members := [("license_bucket".toList, .int 1), ("framework".toList, .string "site".toList)]

theorem documented_numbered : Documented corpus numbered none
    [("bucket".toList, ['1']), ("framework".toList, "site".toList)] := by
  refine ⟨by decide, by rintro k ⟨⟩, by decide, ?_⟩
  intro column v hv
  simp only [Meta.get, numbered, List.lookup_cons, List.lookup_nil] at hv
  split at hv
  · cases hv
    rfl
  · split at hv
    · cases hv
      decide
    · cases hv

theorem selects_eq_matchesFilters_numbered :
    ¬ Agreed rendering corpus numbered none
      [("bucket".toList, ['1']), ("framework".toList, "site".toList)] := by
  rw [← selects_eq_matchesFilters_iff rendering corpus numbered none _ documented_numbered]
  decide

end Sample

end CrawlTrove.Retrieval
