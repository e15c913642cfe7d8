import CrawlTrove.Corpus.Whitespace
import CrawlTrove.Relational.Connection

/-!
# Writing to the vector index

`upsert` (`app/vecindex.py`): the chunks of a document are replaced in three tables, the
rows, their vectors and the full-text entries, inside of one transaction behind a stamp of
the dimension that is committed on its own. Full-text search is available.

A value that cannot be serialized raises where its statement would fail; the fate of that
statement stands for both.
-/

namespace CrawlTrove.Retrieval.Vecindex

open Web (Text)
open Corpus (words join)
open Relational Relational.Session

/-! ## Tables -/

/-- A row of `chunks` but for its id. -/
structure StoredRow where
  kind : Text
  ref : Text
  url : Option Text
  chunkIndex : ℕ
  contentHash : Text
  snippet : Option Text
  metadata : Option Text
  text : Option Text
deriving DecidableEq

/-- `coalesce(text, snippet, '')`. -/
def StoredRow.indexed (row : StoredRow) : Text := (row.text.or row.snippet).getD []

def StoredRow.of (row : StoredRow) (kind ref : Text) : Bool := row.kind = kind ∧ row.ref = ref

/-- A vector; only its dimension is read. -/
abbrev Vector := List ℚ

/-- The three tables of the chunks, each in the order of its row ids, and the highest id that
was ever given. -/
structure Contents where
  chunks : List (ℕ × StoredRow) := []
  vectors : List (ℕ × Vector) := []
  texts : List (ℕ × Text) := []
  sequence : ℕ := 0
deriving DecidableEq

structure Tables where
  contents : Contents := {}
  /-- `vec_meta`. -/
  dim : Option ℕ := none
  model : Option Text := none
  /-- The dimension `vec_chunks` was created with. -/
  created : Option ℕ := none
deriving DecidableEq

/-- The id of a new row, by `AUTOINCREMENT`. -/
def Contents.nextId (contents : Contents) : ℕ :=
  max contents.sequence ((contents.chunks.map Prod.fst).foldr max 0) + 1

/-! ## Statements -/

def deleteVector (rid : ℕ) (t : Tables) : Option (Unit × Tables) :=
  if t.created.isSome then
    some ((), { t with
      contents.vectors := t.contents.vectors.filter fun v => v.1 ≠ rid })
  else none

def deleteText (rid : ℕ) (text : Text) (t : Tables) : Option (Unit × Tables) :=
  some ((), { t with contents.texts := t.contents.texts.filter fun e => e ≠ (rid, text) })

def deleteChunks (kind ref : Text) (t : Tables) : Option (Unit × Tables) :=
  some ((), { t with contents.chunks := t.contents.chunks.filter fun c => !c.2.of kind ref })

/-- Yields `lastrowid`. -/
def insertChunk (row : StoredRow) (t : Tables) : Option (ℕ × Tables) :=
  let rid := t.contents.nextId
  some (rid, { t with
    contents.chunks := t.contents.chunks ++ [(rid, row)]
    contents.sequence := rid })

def insertVector (rid : ℕ) (v : Vector) (t : Tables) : Option (Unit × Tables) :=
  if t.created = some v.length ∧ rid ∉ t.contents.vectors.map Prod.fst then
    some ((), { t with contents.vectors := t.contents.vectors ++ [(rid, v)] })
  else none

def insertText (rid : ℕ) (text : Text) (t : Tables) : Option (Unit × Tables) :=
  some ((), { t with contents.texts := t.contents.texts ++ [(rid, text)] })

def createVectors (dim : ℕ) (t : Tables) : Tables :=
  { t with created := t.created.or (some dim) }

def stampDim (dim : ℕ) (t : Tables) : Option (Unit × Tables) := some ((), { t with dim := dim })

def stampModel (model : Text) (t : Tables) : Option (Unit × Tables) :=
  some ((), { t with model := model })

/-! ## Upserts -/

/-- The arguments of `upsert`, with the metadata as they are dumped and the model as it is
resolved. -/
structure Upsert where
  kind : Text
  ref : Text
  url : Option Text := none
  texts : List Text
  vectors : List Vector
  metadata : Text := "{}".toList
  model : Text := []

def snippetChars : ℕ := 320

/-- `_snippet`. -/
def snippet (text : Text) : Text := (join [' '] (words text)).take snippetChars

/-- `stored_dim`. -/
def storedDim : Session Tables (Option ℕ) := query Tables.dim

/-- `_ensure_vec_table`. -/
def ensureVecTable (dim : ℕ) (model : Text) : Session Tables Bool := do
  match ← storedDim with
  | none => do
      define (createVectors dim)
      execute (stampDim dim)
      execute (stampModel model)
      commit
      return true
  | some existing => return decide (existing = dim)

/-- The row of a text, at its position. -/
def Upsert.row (digest : Text → Text) (u : Upsert) (i : ℕ) (t : Text) : StoredRow where
  kind := u.kind
  ref := u.ref
  url := u.url
  chunkIndex := i
  contentHash := digest t
  snippet := some (snippet t)
  metadata := some u.metadata
  text := some t

/-- The loop over the chunks the document had. -/
def deleteOld : List (ℕ × Text) → Session Tables Unit
  | [] => pure ()
  | (rid, text) :: old => do
      execute (deleteVector rid)
      execute (deleteText rid text)
      deleteOld old

/-- The loop over the texts and vectors, from a position on, with the number written. -/
def insertNew (digest : Text → Text) (u : Upsert) (dim n i : ℕ) :
    List (Text × Vector) → Session Tables ℕ
  | [] => pure n
  | (t, v) :: rest =>
      if v.length ≠ dim then insertNew digest u dim n (i + 1) rest
      else do
        let rid ← execute (insertChunk (u.row digest i t))
        execute (insertVector rid v)
        execute (insertText rid t)
        insertNew digest u dim (n + 1) (i + 1) rest

/-- What stands between `BEGIN` and the commit. -/
def replaceChunks (digest : Text → Text) (u : Upsert) (dim : ℕ) : Session Tables ℕ := do
  let old ← query fun t =>
    (t.contents.chunks.filter fun c => c.2.of u.kind u.ref).map fun c => (c.1, c.2.indexed)
  deleteOld old
  execute (deleteChunks u.kind u.ref)
  insertNew digest u dim 0 0 (u.texts.zip u.vectors)

/-- `upsert`, on a connection that was opened. -/
def upsert (digest : Text → Text) (u : Upsert) : Session Tables ℕ := do
  if u.texts = [] ∨ u.vectors = [] ∨ u.texts.length ≠ u.vectors.length then return 0
  else
    let dim := (u.vectors.headD []).length
    if ← ensureVecTable dim u.model then
      match ← outcome (transaction (replaceChunks digest u dim)) with
      | .ok n => return n
      | .error _ => do
          rollback
          return 0
    else
      -- the warning names the dimension of the index
      let _ ← storedDim
      return 0

/-! ## What the tables say of each other -/

/-- The tables have the same row ids, and a full-text entry is its chunk's text. -/
structure Mirrored (contents : Contents) : Prop where
  distinct : (contents.chunks.map Prod.fst).Nodup
  vectors : contents.vectors.map Prod.fst = contents.chunks.map Prod.fst
  texts : contents.texts = contents.chunks.map fun c => (c.1, c.2.indexed)

/-- The rows and vectors that an upsert writes: those of the dimension of the first vector, in
their order and with their positions. -/
def Upsert.written (digest : Text → Text) (u : Upsert) (dim i : ℕ)
    (pairs : List (Text × Vector)) : List (StoredRow × Vector) :=
  ((pairs.zipIdx i).filter fun p => p.1.2.length = dim).map fun p =>
    (u.row digest p.2 p.1.1, p.1.2)

/-- Rows were added under new ids. -/
structure Grown (ids : List ℕ) (rows : List (StoredRow × Vector)) (before after : Contents) :
    Prop where
  length : ids.length = rows.length
  chunks : after.chunks = before.chunks ++ ids.zip (rows.map Prod.fst)
  vectors : after.vectors = before.vectors ++ ids.zip (rows.map Prod.snd)
  texts : after.texts = before.texts ++ ids.zip (rows.map fun row => row.1.indexed)
  distinct : (before.chunks.map Prod.fst).Nodup → (after.chunks.map Prod.fst).Nodup

/-- The chunks of the document are the rows, those of others are as they were. -/
structure Replaced (u : Upsert) (rows : List (StoredRow × Vector)) (ids : List ℕ)
    (before after : Contents) : Prop where
  length : ids.length = rows.length
  chunks : after.chunks =
    (before.chunks.filter fun c => !c.2.of u.kind u.ref) ++ ids.zip (rows.map Prod.fst)
  vectors : after.vectors =
    (before.vectors.filter fun v =>
      v.1 ∉ (before.chunks.filter fun c => c.2.of u.kind u.ref).map Prod.fst) ++
        ids.zip (rows.map Prod.snd)
  texts : after.texts =
    (before.texts.filter fun e =>
      e ∉ (before.chunks.filter fun c => c.2.of u.kind u.ref).map
        fun c => (c.1, c.2.indexed)) ++ ids.zip (rows.map fun row => row.1.indexed)
  distinct : (before.chunks.map Prod.fst).Nodup → (after.chunks.map Prod.fst).Nodup

theorem filter_not_mem_map {α β : Type} [BEq β] [LawfulBEq β] {g : α → β} {l : List α} {p : α → Bool}
    (h : (l.map g).Nodup) :
    (l.map g).filter (fun b => b ∉ (l.filter p).map g) = (l.filter fun a => !p a).map g := by
  rw [List.filter_map]
  congr 1
  apply List.filter_congr
  intro a ha
  have hmem : g a ∈ (l.filter p).map g ↔ p a = true := by
    constructor
    · intro hga
      obtain ⟨b, hb, hgb⟩ := List.mem_map.mp hga
      obtain ⟨hbl, hpb⟩ := List.mem_filter.mp hb
      rw [← List.inj_on_of_nodup_map h hbl ha hgb]
      exact hpb
    · intro hpa
      exact List.mem_map_of_mem (List.mem_filter.mpr ⟨ha, hpa⟩)
  simp only [Function.comp_apply, hmem]
  cases p a <;> rfl

/-- A replacement keeps the tables in step. -/
theorem Replaced.mirrored {u : Upsert} {rows : List (StoredRow × Vector)} {ids : List ℕ}
    {before after : Contents} (h : Replaced u rows ids before after) (hbefore : Mirrored before) :
    Mirrored after where
  distinct := h.distinct hbefore.distinct
  vectors := by
    have hkept := filter_not_mem_map (p := fun c => c.2.of u.kind u.ref) hbefore.distinct
    rw [← hbefore.vectors, List.filter_map] at hkept
    rw [h.vectors, h.chunks, List.map_append, List.map_append, ← hkept,
      List.map_fst_zip (by simp [h.length]), List.map_fst_zip (by simp [h.length])]
    rfl
  texts := by
    have hdistinct : (before.chunks.map fun c => (c.1, c.2.indexed)).Nodup := by
      apply List.Nodup.of_map Prod.fst
      rw [List.map_map]
      exact hbefore.distinct
    have hkept := filter_not_mem_map (p := fun c => c.2.of u.kind u.ref) hdistinct
    rw [h.texts, h.chunks, hbefore.texts, hkept, List.map_append]
    congr 1
    rw [List.zip_map_right, List.zip_map_right, List.map_map]
    rfl

/-! ## The statements of a replacement -/

theorem deleteOld_inside (old : List (ℕ × Text)) : ∀ t : Tables,
    Inside t (deleteOld old) fun _ t' => t'.contents = { t.contents with
      vectors := t.contents.vectors.filter fun v => v.1 ∉ old.map Prod.fst
      texts := t.contents.texts.filter fun e => e ∉ old } := by
  induction old with
  | nil =>
      intro t
      apply Inside.pure
      simp
  | cons o old ih =>
      intro t
      obtain ⟨rid, text⟩ := o
      apply Inside.bind (Φ := fun _ t' => t'.contents = { t.contents with
        vectors := t.contents.vectors.filter fun v => v.1 ≠ rid })
      · apply Inside.execute
        intro _ t' ht'
        unfold deleteVector at ht'
        split at ht'
        · cases ht'
          rfl
        · cases ht'
      · intro _ t₁ ht₁
        apply Inside.bind (Φ := fun _ t' => t'.contents = { t₁.contents with
          texts := t₁.contents.texts.filter fun e => e ≠ (rid, text) })
        · apply Inside.execute
          intro _ t' ht'
          cases ht'
          rfl
        · intro _ t₂ ht₂
          apply (ih t₂).mono
          intro _ t₃ ht₃
          rw [ht₃, ht₂, ht₁]
          simp only [List.filter_filter, List.map_cons, List.mem_cons, not_or, ne_eq,
            Bool.decide_and, Contents.mk.injEq, true_and, and_true]
          constructor
          · apply List.filter_congr
            intro v _
            exact Bool.and_comm ..
          · apply List.filter_congr
            intro e _
            exact Bool.and_comm ..

theorem nextId_fresh (contents : Contents) :
    contents.nextId ∉ contents.chunks.map Prod.fst := by
  have hmax : ∀ ids : List ℕ, ∀ i ∈ ids, i ≤ ids.foldr max 0 := by
    intro ids
    induction ids with
    | nil => simp
    | cons first ids ih =>
        intro i hi
        rcases List.mem_cons.mp hi with rfl | hi
        · exact le_max_left ..
        · exact le_trans (ih i hi) (le_max_right ..)
  intro hmem
  have hle := hmax _ _ hmem
  unfold Contents.nextId at hle
  omega

/-- One row, its vector and its text, in three statements. -/
theorem insertOne_inside {digest : Text → Text} (u : Upsert) (i : ℕ) (text : Text) (v : Vector)
    (t : Tables) {β : Type} {k : Session Tables β} {Φ : β → Tables → Prop}
    (hk : ∀ t' : Tables, Grown [t.contents.nextId] [(u.row digest i text, v)] t.contents
      t'.contents → Inside t' k Φ) :
    Inside t (do
      let rid ← execute (insertChunk (u.row digest i text))
      execute (insertVector rid v)
      execute (insertText rid text)
      k) Φ := by
  apply Inside.bind (Φ := fun rid t' => rid = t.contents.nextId ∧ t'.contents = { t.contents with
    chunks := t.contents.chunks ++ [(rid, u.row digest i text)]
    sequence := rid })
  · apply Inside.execute
    intro rid t' ht'
    cases ht'
    exact ⟨rfl, rfl⟩
  · rintro rid t₁ ⟨rfl, ht₁⟩
    apply Inside.bind (Φ := fun _ t' => t'.contents = { t₁.contents with
      vectors := t₁.contents.vectors ++ [(t.contents.nextId, v)] })
    · apply Inside.execute
      intro _ t' ht'
      unfold insertVector at ht'
      split at ht'
      · cases ht'
        rfl
      · cases ht'
    · intro _ t₂ ht₂
      apply Inside.bind (Φ := fun _ t' => t'.contents = { t₂.contents with
        texts := t₂.contents.texts ++ [(t.contents.nextId, text)] })
      · apply Inside.execute
        intro _ t' ht'
        cases ht'
        rfl
      · intro _ t₃ ht₃
        apply hk
        rw [ht₃, ht₂, ht₁]
        exact {
          length := rfl
          chunks := rfl
          vectors := rfl
          texts := rfl
          distinct := by
            intro hdistinct
            rw [List.map_append, List.nodup_append]
            refine ⟨hdistinct, List.nodup_singleton _, ?_⟩
            rintro a ha b hb rfl
            rw [List.mem_singleton.mp hb] at ha
            exact nextId_fresh t.contents ha }

theorem Grown.trans {ids ids' : List ℕ} {rows rows' : List (StoredRow × Vector)}
    {c₁ c₂ c₃ : Contents} (h : Grown ids rows c₁ c₂) (h' : Grown ids' rows' c₂ c₃) :
    Grown (ids ++ ids') (rows ++ rows') c₁ c₃ where
  length := by rw [List.length_append, List.length_append, h.length, h'.length]
  chunks := by
    rw [h'.chunks, h.chunks, List.append_assoc, List.map_append,
      List.zip_append (by simp [h.length])]
  vectors := by
    rw [h'.vectors, h.vectors, List.append_assoc, List.map_append,
      List.zip_append (by simp [h.length])]
  texts := by
    rw [h'.texts, h.texts, List.append_assoc, List.map_append,
      List.zip_append (by simp [h.length])]
  distinct := fun hdistinct => h'.distinct (h.distinct hdistinct)

theorem Grown.refl (contents : Contents) : Grown [] [] contents contents :=
  ⟨rfl, by simp, by simp, by simp, fun h => h⟩

theorem written_cons_of_ne {digest : Text → Text} (u : Upsert) {dim : ℕ} (i : ℕ) {p : Text × Vector}
    (h : p.2.length ≠ dim) (pairs : List (Text × Vector)) :
    u.written digest dim i (p :: pairs) = u.written digest dim (i + 1) pairs := by
  simp [Upsert.written, h]

theorem written_cons_of_eq {digest : Text → Text} (u : Upsert) {dim : ℕ} (i : ℕ) {p : Text × Vector}
    (h : p.2.length = dim) (pairs : List (Text × Vector)) :
    u.written digest dim i (p :: pairs) =
      (u.row digest i p.1, p.2) :: u.written digest dim (i + 1) pairs := by
  simp [Upsert.written, h]

theorem insertNew_inside {digest : Text → Text} (u : Upsert) (dim : ℕ)
    (pairs : List (Text × Vector)) : ∀ (n i : ℕ) (t : Tables),
      Inside t (insertNew digest u dim n i pairs) fun m t' =>
        m = n + (u.written digest dim i pairs).length ∧
          ∃ ids, Grown ids (u.written digest dim i pairs) t.contents t'.contents := by
  induction pairs with
  | nil =>
      intro n i t
      apply Inside.pure
      exact ⟨rfl, [], Grown.refl _⟩
  | cons p pairs ih =>
      intro n i t
      obtain ⟨text, v⟩ := p
      unfold insertNew
      by_cases hdim : v.length = dim
      · rw [if_neg (not_not.mpr hdim), written_cons_of_eq u i hdim]
        apply insertOne_inside
        intro t' hgrown
        apply (ih (n + 1) (i + 1) t').mono
        rintro m t'' ⟨hm, ids, hgrown'⟩
        refine ⟨?_, _, hgrown.trans hgrown'⟩
        rw [hm, List.length_cons]
        omega
      · rw [if_pos hdim, written_cons_of_ne u i hdim]
        exact ih n (i + 1) t

theorem replaceChunks_inside (digest : Text → Text) (u : Upsert) (dim : ℕ) (t : Tables) :
    Inside t (replaceChunks digest u dim) fun n t' =>
      n = (u.written digest dim 0 (u.texts.zip u.vectors)).length ∧
        ∃ ids, Replaced u (u.written digest dim 0 (u.texts.zip u.vectors)) ids t.contents
          t'.contents := by
  unfold replaceChunks
  apply Inside.bind (Φ := fun old t' => old = (t.contents.chunks.filter fun c =>
    c.2.of u.kind u.ref).map (fun c => (c.1, c.2.indexed)) ∧ t' = t)
  · apply Inside.query
    exact ⟨rfl, rfl⟩
  · rintro old t₀ ⟨hold, rfl⟩
    apply Inside.bind (deleteOld_inside old t₀)
    intro _ t₁ ht₁
    apply Inside.bind (Φ := fun _ t' => t'.contents = { t₁.contents with
      chunks := t₁.contents.chunks.filter fun c => !c.2.of u.kind u.ref })
    · apply Inside.execute
      intro _ t' ht'
      cases ht'
      rfl
    · intro _ t₂ ht₂
      apply (insertNew_inside u dim (u.texts.zip u.vectors) 0 0 t₂).mono
      rintro n t₃ ⟨hn, ids, hgrown⟩
      refine ⟨by rw [hn, Nat.zero_add], ids, ?_⟩
      have hids : old.map Prod.fst =
          (t₀.contents.chunks.filter fun c => c.2.of u.kind u.ref).map Prod.fst := by
        rw [hold, List.map_map]
        rfl
      exact {
        length := hgrown.length
        chunks := by rw [hgrown.chunks, ht₂, ht₁]
        vectors := by rw [hgrown.vectors, ht₂, ht₁, hids]
        texts := by rw [hgrown.texts, ht₂, ht₁, hold]
        distinct := by
          intro hdistinct
          apply hgrown.distinct
          rw [ht₂, ht₁]
          exact hdistinct.sublist (List.filter_sublist.map Prod.fst) }

/-! ## An upsert -/

/-- The stamp of the dimension is no part of the contents. -/
theorem ensureVecTable_quiet (dim : ℕ) (model : Text) :
    Quiet Tables.contents (ensureVecTable dim model) := by
  unfold ensureVecTable storedDim
  apply Quiet.bind (Quiet.query _)
  intro existing
  cases existing with
  | none =>
      apply Quiet.bind
      · apply Quiet.define
        intro t
        rfl
      · intro _
        apply Quiet.bind
        · apply Quiet.execute
          intro t _ t' ht'
          cases ht'
          rfl
        · intro _
          apply Quiet.bind
          · apply Quiet.execute
            intro t _ t' ht'
            cases ht'
            rfl
          · intro _
            apply Quiet.bind Quiet.commit
            intro _
            exact Quiet.pure true
  | some existing => exact Quiet.pure _

/-- The contents that the connection sees. -/
def contentsOf (c : Connection Tables) : Contents := (view c).contents

/-- How an upsert ends: the chunks of its document are replaced, or nothing has changed and it
has written none or raised. -/
inductive Upserted (digest : Text → Text) (u : Upsert) (before after : Contents) :
    Except Unit ℕ → Prop
  | replaced {ids : List ℕ}
      (hpos : 0 < (u.written digest (u.vectors.headD []).length 0
        (u.texts.zip u.vectors)).length)
      (h : Replaced u (u.written digest (u.vectors.headD []).length 0 (u.texts.zip u.vectors))
        ids before after) :
      Upserted digest u before after
        (.ok (u.written digest (u.vectors.headD []).length 0 (u.texts.zip u.vectors)).length)
  | nothing (h : after = before) : Upserted digest u before after (.ok 0)
  | raised (h : after = before) : Upserted digest u before after (.error ())

/-- The first vector has the dimension asked for. -/
theorem written_pos (digest : Text → Text) (u : Upsert) (htexts : u.texts ≠ [])
    (hvectors : u.vectors ≠ []) :
    0 < (u.written digest (u.vectors.headD []).length 0 (u.texts.zip u.vectors)).length := by
  obtain ⟨t, texts, ht⟩ := List.exists_cons_of_ne_nil htexts
  obtain ⟨v, vectors, hv⟩ := List.exists_cons_of_ne_nil hvectors
  rw [ht, hv, List.zip_cons_cons, List.headD_cons, written_cons_of_eq u 0 (p := (t, v)) rfl,
    List.length_cons]
  omega

theorem upsert_cases (digest : Text → Text) (u : Upsert) {c : Connection Tables}
    (hstill : Still Tables.contents c) :
    Still Tables.contents (upsert digest u c).2 ∧
      Upserted digest u (contentsOf c) (contentsOf (upsert digest u c).2)
        (upsert digest u c).1 := by
  unfold upsert
  by_cases harguments : u.texts = [] ∨ u.vectors = [] ∨ u.texts.length ≠ u.vectors.length
  · rw [if_pos harguments]
    exact ⟨hstill, Upserted.nothing rfl⟩
  · rw [if_neg harguments]
    have hpos := written_pos digest u (fun h => harguments (Or.inl h))
      fun h => harguments (Or.inr (Or.inl h))
    obtain ⟨hstill₁, hcommitted₁⟩ := ensureVecTable_quiet (u.vectors.headD []).length u.model c
      hstill
    have hview₁ := (ensureVecTable_quiet (u.vectors.headD []).length u.model).view_eq hstill
    cases hensure : ensureVecTable (u.vectors.headD []).length u.model c with
    | mk r c₁ =>
        rw [hensure] at hstill₁ hcommitted₁ hview₁
        cases r with
        | error e =>
            simp only [bind_error hensure]
            exact ⟨hstill₁, Upserted.raised hview₁⟩
        | ok ready =>
            simp only [bind_ok hensure]
            cases ready with
            | false =>
                have hquiet : Quiet Tables.contents
                    (storedDim >>= fun _ => (pure 0 : Session Tables ℕ)) :=
                  Quiet.bind (Quiet.query _) fun _ => Quiet.pure 0
                have hview₂ := hquiet.view_eq hstill₁
                refine ⟨(hquiet c₁ hstill₁).1, ?_⟩
                show Upserted digest u (contentsOf c)
                  (contentsOf ((storedDim >>= fun _ => (pure 0 : Session Tables ℕ)) c₁).2)
                  ((storedDim >>= fun _ => (pure 0 : Session Tables ℕ)) c₁).1
                cases hdim : storedDim c₁ with
                | mk r c₂ =>
                    cases r with
                    | ok existing =>
                        rw [bind_ok hdim] at hview₂ ⊢
                        exact Upserted.nothing (hview₂.trans hview₁)
                    | error e =>
                        rw [bind_error hdim] at hview₂ ⊢
                        exact Upserted.raised (hview₂.trans hview₁)
            | true =>
                have hbefore : contentsOf c = c₁.committed.contents :=
                  hview₁.symm.trans (part_view hstill₁)
                have hbody := replaceChunks_inside digest u (u.vectors.headD []).length
                  c₁.committed
                rcases transaction_cases hbody with ⟨n, c₂, hrun, hnone, hn, ids, hreplaced⟩ |
                  ⟨c₂, hrun, hkept⟩
                · have houtcome : outcome (transaction (replaceChunks digest u
                      (u.vectors.headD []).length)) c₁ = (.ok (.ok n), c₂) := by
                    simp only [outcome, hrun]
                  simp only [if_true, bind_ok houtcome]
                  have hafter : contentsOf c₂ = c₂.committed.contents := by
                    simp [contentsOf, view, hnone]
                  subst hn
                  refine ⟨fun t ht => ?_, ?_⟩
                  · rw [show (pure _ : Session Tables ℕ) c₂ = (.ok _, c₂) from rfl, hnone] at ht
                    cases ht
                  · rw [← hbefore, ← hafter] at hreplaced
                    exact Upserted.replaced hpos hreplaced
                · have houtcome : outcome (transaction (replaceChunks digest u
                      (u.vectors.headD []).length)) c₁ = (.ok (.error ()), c₂) := by
                    simp only [outcome, hrun]
                  simp only [if_true, bind_ok houtcome]
                  refine ⟨fun t ht => by (cases ht), Upserted.nothing ?_⟩
                  rw [hbefore, ← hkept]
                  rfl

/-! ## Sequences of upserts -/

/-- The connection after upserts, of which any may have raised. -/
def after (digest : Text → Text) (c : Connection Tables) (upserts : List Upsert) :
    Connection Tables :=
  upserts.foldl (fun c u => (upsert digest u c).2) c

theorem Upserted.mirrored {digest : Text → Text} {u : Upsert} {before later : Contents}
    {r : Except Unit ℕ} (h : Upserted digest u before later r) (hbefore : Mirrored before) :
    Mirrored later := by
  cases h with
  | replaced hpos h => exact h.mirrored hbefore
  | nothing h =>
      rw [h]
      exact hbefore
  | raised h =>
      rw [h]
      exact hbefore

theorem after_mirrored (digest : Text → Text) (upserts : List Upsert) :
    ∀ c : Connection Tables, Still Tables.contents c → Mirrored (contentsOf c) →
      Still Tables.contents (after digest c upserts) ∧
        Mirrored (contentsOf (after digest c upserts)) := by
  induction upserts with
  | nil =>
      intro c hstill hmirrored
      exact ⟨hstill, hmirrored⟩
  | cons u upserts ih =>
      intro c hstill hmirrored
      obtain ⟨hstill', hupserted⟩ := upsert_cases digest u hstill
      exact ih _ hstill' (hupserted.mirrored hmirrored)

/-- Whatever was upserted and whichever statements failed, the tables mirror each other. An
upsert that writes replaces the chunks of its document and no other, and one that returns 0
changes none. -/
theorem upserts_mirror (digest : Text → Text) (c : Connection Tables) (upserts : List Upsert)
    (hidle : c.working = none) (hmirrored : Mirrored c.committed.contents) :
    Mirrored (contentsOf (after digest c upserts)) ∧
      ∀ u, Upserted digest u (contentsOf (after digest c upserts))
        (contentsOf (upsert digest u (after digest c upserts)).2)
        (upsert digest u (after digest c upserts)).1 := by
  have hstill : Still Tables.contents c := by
    intro t ht
    rw [hidle] at ht
    cases ht
  have hview : contentsOf c = c.committed.contents := by
    simp [contentsOf, view, hidle]
  obtain ⟨hstill', hmirrored'⟩ := after_mirrored digest upserts c hstill
    (by rw [hview]; exact hmirrored)
  exact ⟨hmirrored', fun u => (upsert_cases digest u hstill').2⟩

namespace Sample

/-- The row of a document that is there. -/
def row : StoredRow where
  kind := "scrape".toList
  ref := "note".toList
  url := none
  chunkIndex := 0
  contentHash := "z".toList
  snippet := some "z".toList
  metadata := none
  text := some "z".toList

/-- One document is stored, and the insert of the second row of the first upsert fails. -/
def connection : Connection Tables where
  committed :=
    { contents :=
        { chunks := [(1, row)], vectors := [(1, [0])], texts := [(1, "z".toList)], sequence := 1 }
      dim := some 1
      created := some 1 }
  fate := fun n => if n = 7 then .fails else .runs

def document : Upsert where
  kind := "crawl".toList
  ref := "page".toList
  texts := ["a".toList, "b".toList, "c".toList]
  vectors := [[1], [1, 2], [2]]

/-- The first upsert is rolled back, and of the second one the ragged vector is left out. -/
example : (contentsOf (after id connection [document])).vectors = [(1, [0])] ∧
    (contentsOf (after id connection [document, document])).vectors =
      [(1, [0]), (2, [1]), (3, [2])] := by
  decide +kernel

theorem upserts_mirror_sample :
    Mirrored (contentsOf (after id connection [document, document])) ∧
      ∀ u, Upserted id u (contentsOf (after id connection [document, document]))
        (contentsOf (upsert id u (after id connection [document, document])).2)
        (upsert id u (after id connection [document, document])).1 :=
  upserts_mirror id connection [document, document] rfl ⟨List.nodup_singleton 1, rfl, rfl⟩

end Sample

end CrawlTrove.Retrieval.Vecindex
