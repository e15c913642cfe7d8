import CrawlTrove.Corpus.Chunking

/-!
# The dedup index

`check_and_register` (`app/dedup.py`): the exact index keeps for each content hash
the first key it was seen with and is never corrected, while the signature of a key
is replaced in the near-duplicate index. `lower` is `str.lower`, `sha256` the hex
digest of a text; the signatures and the query of the near-duplicate index are those
of `datasketch`. The index files can be written.
-/

namespace CrawlTrove.Signals.Dedup

open Web (Text)
open Corpus (isSpace trim)

/-- A call. -/
structure Call where
  text : Text
  key : String
deriving DecidableEq

/-- The index: `_exact`, and `_lsh` as the signatures of its keys. -/
structure Index (σ : Type*) where
  exact : String → Option String := fun _ => none
  lsh : List (String × σ) := []

/-- The dedup report. -/
structure Report where
  contentHash : String
  exactDuplicateOf : Option String
  nearDuplicateOf : Option String
deriving DecidableEq

/-- `re.sub(r"\s+", " ", text)`; `inSpace` says that the space has been written. -/
def collapseFrom (inSpace : Bool) : Text → Text
  | [] => []
  | c :: s =>
      if isSpace c then if inSpace then collapseFrom true s else ' ' :: collapseFrom true s
      else c :: collapseFrom false s

section

variable (lower : Text → Text)

/-- `_normalize`. -/
def normalize (text : Text) : Text := lower (trim (collapseFrom false text))

variable {σ : Type*} (sha256 : Text → String) (minhash : Text → σ)
  (query : List (String × σ) → σ → List String)

/-- A prior key that counts: not empty, and not the calling one. -/
def exactDuplicate (prior : Option String) (key : String) : Option String :=
  prior.filter fun k => k ≠ "" ∧ k ≠ key

def checkAndRegister (call : Call) (index : Index σ) : Report × Index σ :=
  if call.text = [] then
    ({ contentHash := "", exactDuplicateOf := none, nearDuplicateOf := none }, index)
  else
    let contentHash := sha256 (normalize lower call.text)
    let prior := index.exact contentHash
    let exactDup := exactDuplicate prior call.key
    let m := minhash call.text
    let nearDup :=
      if exactDup.isSome then none else ((query index.lsh m).filter (· ≠ call.key)).head?
    ({ contentHash := contentHash, exactDuplicateOf := exactDup, nearDuplicateOf := nearDup },
      { exact :=
          if prior = none then Function.update index.exact contentHash (some call.key)
          else index.exact
        lsh := index.lsh.filter (·.1 ≠ call.key) ++ [(call.key, m)] })

def register (index : Index σ) (call : Call) : Index σ :=
  (checkAndRegister lower sha256 minhash query call index).2

/-- The index after these calls. -/
def indexAfter (calls : List Call) : Index σ :=
  calls.foldl (register lower sha256 minhash query) {}

/-- What the next call reports. -/
def reportAfter (calls : List Call) (call : Call) : Report :=
  (checkAndRegister lower sha256 minhash query call
    (indexAfter lower sha256 minhash query calls)).1

/-! ## Histories -/

/-- The hash under which a call registers its text; an empty one is not registered. -/
def Call.contentHash (call : Call) : Option String :=
  if call.text = [] then none else some (sha256 (normalize lower call.text))

/-- The first key that was registered with this content. -/
def firstKey (calls : List Call) (h : String) : Option String :=
  (calls.find? fun c => c.contentHash lower sha256 = some h).map Call.key

/-- The hash of the latest text registered for a key. -/
def latestHash (calls : List Call) (key : String) : Option String :=
  (calls.reverse.find? fun c => c.text ≠ [] ∧ c.key = key).bind
    (Call.contentHash lower sha256)

/-- The report names another key whose latest text has this content, and one is named
if there is one. -/
def Right (calls : List Call) (call : Call) (duplicate : Option String) : Prop :=
  ∀ h, call.contentHash lower sha256 = some h →
    match duplicate with
    | some k => k ≠ call.key ∧ latestHash lower sha256 calls k = some h
    | none => ∀ k, k ≠ call.key → latestHash lower sha256 calls k ≠ some h

/-- The first key registered with the content still has it; or it cannot be reported,
being the calling key or empty, and no other key has the content. -/
def FirstStillHas (calls : List Call) (call : Call) : Prop :=
  ∀ h, call.contentHash lower sha256 = some h →
    ∀ first, firstKey lower sha256 calls h = some first →
      if first = "" ∨ first = call.key then
        ∀ k, k ≠ call.key → latestHash lower sha256 calls k ≠ some h
      else latestHash lower sha256 calls first = some h

end

section

variable {lower : Text → Text} {σ : Type*} {sha256 : Text → String} {minhash : Text → σ}
  {query : List (String × σ) → σ → List String}

theorem contentHash_of_ne {call : Call} (h : call.text ≠ []) :
    call.contentHash lower sha256 = some (sha256 (normalize lower call.text)) := if_neg h

theorem firstKey_concat (calls : List Call) (call : Call) (h : String) :
    firstKey lower sha256 (calls ++ [call]) h =
      (firstKey lower sha256 calls h <|>
        if call.contentHash lower sha256 = some h then some call.key else none) := by
  unfold firstKey
  rw [List.find?_append]
  cases calls.find? fun c => c.contentHash lower sha256 = some h with
  | some first => rfl
  | none => by_cases hc : call.contentHash lower sha256 = some h <;> simp [hc]

/-- What one call does to the exact index. -/
theorem exact_register (index : Index σ) (call : Call) (h : String) :
    (register lower sha256 minhash query index call).exact h =
      (index.exact h <|>
        if call.contentHash lower sha256 = some h then some call.key else none) := by
  by_cases htext : call.text = []
  · simp [register, checkAndRegister, Call.contentHash, htext]
  · simp only [register, checkAndRegister, if_neg htext, contentHash_of_ne htext,
      Option.some.injEq]
    by_cases hh : sha256 (normalize lower call.text) = h
    · subst hh
      cases hprior : index.exact (sha256 (normalize lower call.text)) with
      | none => simp
      | some prior => simp [hprior]
    · rw [if_neg hh]
      cases hprior : index.exact (sha256 (normalize lower call.text)) with
      | none => simp [Function.update_of_ne (Ne.symm hh)]
      | some prior => simp

/-- The exact index holds the first key of each content. -/
theorem exact_indexAfter (calls : List Call) (h : String) :
    (indexAfter lower sha256 minhash query calls).exact h = firstKey lower sha256 calls h := by
  induction calls using List.reverseRecOn with
  | nil => rfl
  | append_singleton calls call ih =>
      rw [indexAfter, List.foldl_append, List.foldl_cons, List.foldl_nil, exact_register,
        firstKey_concat, ← ih]
      rfl

/-- A key whose latest text has a content has registered it. -/
theorem firstKey_of_latestHash {calls : List Call} {k h : String}
    (hlatest : latestHash lower sha256 calls k = some h) :
    ∃ first, firstKey lower sha256 calls h = some first := by
  obtain ⟨call, hfind, hhash⟩ := Option.bind_eq_some_iff.mp hlatest
  have hmem : call ∈ calls := List.mem_reverse.mp (List.mem_of_find?_eq_some hfind)
  cases hfirst : calls.find? fun c => c.contentHash lower sha256 = some h with
  | some first => exact ⟨first.key, by rw [firstKey, hfirst, Option.map_some]⟩
  | none =>
      have hnone := List.find?_eq_none.mp hfirst call hmem
      exact absurd hhash (by simpa using hnone)

theorem reportAfter_exact {calls : List Call} {call : Call} {h : String}
    (hhash : call.contentHash lower sha256 = some h) :
    (reportAfter lower sha256 minhash query calls call).exactDuplicateOf =
      exactDuplicate (firstKey lower sha256 calls h) call.key := by
  have htext : call.text ≠ [] := by
    rintro htext
    rw [Call.contentHash, if_pos htext] at hhash
    exact absurd hhash (by simp)
  rw [contentHash_of_ne htext, Option.some.injEq] at hhash
  rw [reportAfter, checkAndRegister, if_neg htext]
  simp only [hhash, exact_indexAfter]

theorem report_right_iff (lower : Text → Text) {σ : Type*} (sha256 : Text → String)
    (minhash : Text → σ) (query : List (String × σ) → σ → List String) (calls : List Call)
    (call : Call) :
    Right lower sha256 calls call
        (reportAfter lower sha256 minhash query calls call).exactDuplicateOf ↔
      FirstStillHas lower sha256 calls call := by
  unfold Right FirstStillHas
  refine forall_congr' fun h => forall_congr' fun hhash => ?_
  rw [reportAfter_exact hhash]
  cases hfirst : firstKey lower sha256 calls h with
  | none =>
      -- the content is new, and no key can have it
      simp only [exactDuplicate, Option.filter_none]
      constructor
      · rintro - first ⟨⟩
      · intro _ k _ hlatest
        obtain ⟨first, hsome⟩ := firstKey_of_latestHash hlatest
        exact absurd (hfirst.symm.trans hsome) (by simp)
  | some first =>
      simp only [Option.some.injEq, forall_eq']
      by_cases hself : first = "" ∨ first = call.key
      · have hfilter : exactDuplicate (some first) call.key = none := by
          rcases hself with rfl | rfl <;> simp [exactDuplicate]
        rw [hfilter, if_pos hself]
      · have hfilter : exactDuplicate (some first) call.key = some first := by
          rw [not_or] at hself
          simp [exactDuplicate, hself.1, hself.2]
        rw [hfilter, if_neg hself]
        rw [not_or] at hself
        simp only [ne_eq, hself.2, not_false_eq_true, true_and]

end

namespace Sample

/-- A page that has been changed, and another one with its old text. -/
def changed : List Call :=
  [⟨"Closures".toList, "https://a.org"⟩, ⟨"Actors".toList, "https://a.org"⟩]

/-- The text that the first page no longer has is reported as its duplicate. -/
theorem stale_original :
    ¬ Right id String.ofList changed ⟨"Closures".toList, "https://b.org"⟩
      (reportAfter id String.ofList (fun _ => ()) (fun _ _ => []) changed
        ⟨"Closures".toList, "https://b.org"⟩).exactDuplicateOf := by
  intro h
  have hreport : (reportAfter id String.ofList (fun _ => ()) (fun _ _ => []) changed
      ⟨"Closures".toList, "https://b.org"⟩).exactDuplicateOf = some "https://a.org" := by
    decide
  rw [hreport] at h
  have hlatest := (h _ (contentHash_of_ne (by decide))).2
  exact absurd hlatest (by decide)

end Sample

end CrawlTrove.Signals.Dedup
