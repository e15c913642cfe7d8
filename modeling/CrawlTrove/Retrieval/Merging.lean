import CrawlTrove.Relational.FirstSeen

/-!
# Keyword hits from two sources

`_merge_keyword_sources` (`app/retrieval.py`): the hits of the database and of the file
index take turns, and a hit whose key has come already is skipped. The model keeps with
every hit of the output the source it was taken from, which nothing reads.
-/

namespace CrawlTrove.Retrieval

open FirstSeen

/-- What identifies a chunk: its kind, its document and its place there. -/
abbrev Key := String × String × ℤ

instance lawfulBEq_key : LawfulBEq Key := inferInstance

/-- A hit, with the fields that are read; a text that is missing or null reads as empty. -/
structure Hit where
  kind : String := ""
  ref : String := ""
  chunkIndex : ℤ := 0
  score : Option ℚ := none
  /-- `meta["parent_hash"]`. -/
  parentHash : String := ""
deriving DecidableEq

/-- `_key`. -/
def Hit.key (hit : Hit) : Key := (hit.kind, hit.ref, hit.chunkIndex)

inductive Source
  | db
  | file
deriving DecidableEq

def Source.other : Source → Source
  | .db => .file
  | .file => .db

/-- The variables of the loop: what was taken, whose keys are the seen ones, and what is
left of each source behind its position. -/
structure Merge where
  out : List (Source × Hit)
  rest : Source → List Hit

def keys (taken : List (Source × Hit)) : List Key := taken.map fun t => t.2.key

/-- How many hits were taken from a source. -/
def contributed (source : Source) (taken : List (Source × Hit)) : ℕ :=
  taken.countP fun t => t.1 = source

/-- The inner loop: the first hit with an unseen key, and what stands behind it. -/
def nextUnseen (seen : List Key) : List Hit → Option (Hit × List Hit)
  | [] => none
  | hit :: rest => if hit.key ∈ seen then nextUnseen seen rest else some (hit, rest)

/-- One source takes its turn; whether it has added a hit. -/
def Merge.turn (source : Source) (s : Merge) : Merge × Bool :=
  match nextUnseen (keys s.out) (s.rest source) with
  | none => ({ s with rest := Function.update s.rest source [] }, false)
  | some (hit, rest) =>
      ({ out := s.out ++ [(source, hit)], rest := Function.update s.rest source rest }, true)

/-- A round of the outer loop, which ends between the sources when the output is long
enough. -/
def Merge.round (depth : ℕ) (s : Merge) : Merge × Bool :=
  let (s, added) := s.turn .db
  if depth ≤ s.out.length then (s, added)
  else
    let (s, added') := s.turn .file
    (s, added || added')

/-- What the sources still have. -/
def Merge.left (s : Merge) : ℕ := (s.rest .db).length + (s.rest .file).length

/-! ## Turns -/

theorem length_nextUnseen {seen : List Key} {hits rest : List Hit} {hit : Hit}
    (h : nextUnseen seen hits = some (hit, rest)) : rest.length < hits.length := by
  induction hits with
  | nil => cases h
  | cons first hits ih =>
      rw [nextUnseen] at h
      by_cases hseen : first.key ∈ seen
      · rw [if_pos hseen] at h
        exact Nat.lt_succ_of_lt (ih h)
      · rw [if_neg hseen] at h
        cases h
        exact Nat.lt_succ_self _

/-- The cases of a turn. -/
theorem Merge.turn_cases (source : Source) (s : Merge) :
    (∃ hit rest, nextUnseen (keys s.out) (s.rest source) = some (hit, rest) ∧
      s.turn source =
        ({ out := s.out ++ [(source, hit)], rest := Function.update s.rest source rest }, true)) ∨
      (nextUnseen (keys s.out) (s.rest source) = none ∧
        s.turn source = ({ s with rest := Function.update s.rest source [] }, false)) := by
  unfold Merge.turn
  cases h : nextUnseen (keys s.out) (s.rest source) with
  | none => exact Or.inr ⟨rfl, rfl⟩
  | some taken => exact Or.inl ⟨taken.1, taken.2, rfl, rfl⟩

theorem Merge.left_update (s : Merge) (source : Source) (rest : List Hit) :
    (Merge.mk s.out (Function.update s.rest source rest)).left + (s.rest source).length =
      s.left + rest.length := by
  cases source with
  | db =>
      simp only [Merge.left, Function.update_self, ne_eq, reduceCtorEq, not_false_eq_true,
        Function.update_of_ne]
      omega
  | file =>
      simp only [Merge.left, Function.update_self, ne_eq, reduceCtorEq, not_false_eq_true,
        Function.update_of_ne]
      omega

/-- A turn takes something, or the source has nothing left. -/
theorem Merge.left_turn (source : Source) (s : Merge) :
    (s.turn source).1.left ≤ s.left ∧
      ((s.turn source).2 = true → (s.turn source).1.left < s.left) := by
  rcases s.turn_cases source with ⟨hit, rest, hnext, hturn⟩ | ⟨-, hturn⟩
  · have hlength := length_nextUnseen hnext
    have hleft := s.left_update source rest
    rw [hturn]
    show (Merge.mk s.out (Function.update s.rest source rest)).left ≤ s.left ∧
      (true = true → (Merge.mk s.out (Function.update s.rest source rest)).left < s.left)
    omega
  · have hleft := s.left_update source []
    rw [hturn]
    refine ⟨?_, fun h => absurd h Bool.false_ne_true⟩
    show (Merge.mk s.out (Function.update s.rest source [])).left ≤ s.left
    rw [List.length_nil] at hleft
    omega

theorem Merge.left_round (depth : ℕ) (s : Merge) (h : (s.round depth).2 = true) :
    (s.round depth).1.left < s.left := by
  have hdb := s.left_turn .db
  have hfile := (s.turn .db).1.left_turn .file
  unfold Merge.round at h ⊢
  dsimp only at h ⊢
  split at h
  · rename_i hfull
    rw [if_pos hfull]
    exact hdb.2 h
  · rename_i hfull
    rw [if_neg hfull]
    rcases Bool.or_eq_true _ _ |>.mp h with h | h
    · exact lt_of_le_of_lt hfile.1 (hdb.2 h)
    · exact lt_of_lt_of_le (hfile.2 h) hdb.1

/-- The outer loop. -/
def Merge.loop (depth : ℕ) (s : Merge) : Merge :=
  if depth ≤ s.out.length then s
  else if (s.round depth).2 = true then (s.round depth).1.loop depth
  else (s.round depth).1
termination_by s.left
decreasing_by exact s.left_round depth ‹_›

/-- The output with the sources of its hits. -/
def mergeSources (lists : Source → List Hit) (depth : ℕ) : List (Source × Hit) :=
  (Merge.loop depth ⟨[], lists⟩).out

def sources (dbHits fileHits : List Hit) : Source → List Hit
  | .db => dbHits
  | .file => fileHits

/-- `_merge_keyword_sources`. -/
def mergeKeywordSources (dbHits fileHits : List Hit) (depth : ℕ) : List Hit :=
  (mergeSources (sources dbHits fileHits) depth).map Prod.snd

/-! ## What has been taken -/

variable {lists : Source → List Hit}

/-- A source still has a hit with an unseen key. -/
def Live (lists : Source → List Hit) (taken : List (Source × Hit)) (source : Source) : Prop :=
  ∃ hit ∈ lists source, hit.key ∉ keys taken

theorem Live.of_append {taken more : List (Source × Hit)} {source : Source}
    (h : Live lists (taken ++ more) source) : Live lists taken source := by
  obtain ⟨hit, hmem, hunseen⟩ := h
  refine ⟨hit, hmem, ?_⟩
  intro hseen
  apply hunseen
  rw [keys, List.map_append]
  exact List.mem_append_left _ hseen

/-- No source that could go on is more than one hit behind. -/
def Fair (lists : Source → List Hit) (taken : List (Source × Hit)) : Prop :=
  ∀ source, Live lists taken source →
    contributed source.other taken ≤ contributed source taken + 1

/-- What is left of a list, when its hits before that were taken or have seen keys. -/
def Consumed (taken : List (Source × Hit)) (source : Source) (hits rest : List Hit) : Prop :=
  ∃ before, hits = before ++ rest ∧ (∀ hit ∈ before, hit.key ∈ keys taken) ∧
    ((taken.filter fun t => t.1 = source).map Prod.snd).Sublist before

structure Merge.Sound (lists : Source → List Hit) (s : Merge) : Prop where
  distinct : (keys s.out).Nodup
  consumed : ∀ source, Consumed s.out source (lists source) (s.rest source)
  fair : ∀ taken, taken <+: s.out → Fair lists taken

/-- Who is behind by at most how much, when a source is to move. -/
def Merge.Balanced (lists : Source → List Hit) (s : Merge) : Source → Prop
  | .db =>
      (Live lists s.out .db → contributed .file s.out ≤ contributed .db s.out) ∧
        (Live lists s.out .file → contributed .db s.out ≤ contributed .file s.out)
  | .file =>
      (Live lists s.out .db → contributed .file s.out + 1 ≤ contributed .db s.out) ∧
        (Live lists s.out .file → contributed .db s.out ≤ contributed .file s.out + 1)

theorem Merge.Balanced.fair {s : Merge} {mover : Source} (h : s.Balanced lists mover) :
    Fair lists s.out := by
  intro source hlive
  cases mover with
  | db =>
      cases source with
      | db => exact Nat.le_succ_of_le (h.1 hlive)
      | file => exact Nat.le_succ_of_le (h.2 hlive)
  | file =>
      cases source with
      | db =>
          have hdb := h.1 hlive
          show contributed .file s.out ≤ contributed .db s.out + 1
          omega
      | file => exact h.2 hlive

theorem keys_append (taken : List (Source × Hit)) (source : Source) (hit : Hit) :
    keys (taken ++ [(source, hit)]) = keys taken ++ [hit.key] := by
  simp [keys]

theorem contributed_append (taken : List (Source × Hit)) (source source' : Source) (hit : Hit) :
    contributed source (taken ++ [(source', hit)]) =
      contributed source taken + if source' = source then 1 else 0 := by
  simp [contributed, List.countP_append, List.countP_cons]

theorem nextUnseen_eq_some {seen : List Key} {hits rest : List Hit} {hit : Hit}
    (h : nextUnseen seen hits = some (hit, rest)) :
    hit.key ∉ seen ∧ ∃ skipped, hits = skipped ++ hit :: rest ∧ ∀ x ∈ skipped, x.key ∈ seen := by
  induction hits with
  | nil => cases h
  | cons first hits ih =>
      rw [nextUnseen] at h
      by_cases hseen : first.key ∈ seen
      · rw [if_pos hseen] at h
        obtain ⟨hunseen, skipped, rfl, hskipped⟩ := ih h
        refine ⟨hunseen, first :: skipped, rfl, ?_⟩
        intro x hx
        rcases List.mem_cons.mp hx with rfl | hx
        · exact hseen
        · exact hskipped x hx
      · rw [if_neg hseen] at h
        cases h
        exact ⟨hseen, [], rfl, by simp⟩

theorem nextUnseen_eq_none {seen : List Key} {hits : List Hit} (h : nextUnseen seen hits = none) :
    ∀ hit ∈ hits, hit.key ∈ seen := by
  induction hits with
  | nil => simp
  | cons first hits ih =>
      rw [nextUnseen] at h
      by_cases hseen : first.key ∈ seen
      · rw [if_pos hseen] at h
        intro hit hmem
        rcases List.mem_cons.mp hmem with rfl | hmem
        · exact hseen
        · exact ih h hit hmem
      · rw [if_neg hseen] at h
        cases h

theorem Consumed.append {taken : List (Source × Hit)} {source other : Source} {hits rest : List Hit}
    (h : Consumed taken source hits rest) (hit : Hit) (hne : other ≠ source) :
    Consumed (taken ++ [(other, hit)]) source hits rest := by
  obtain ⟨before, hhits, hseen, hsublist⟩ := h
  refine ⟨before, hhits, ?_, ?_⟩
  · intro x hx
    rw [keys_append]
    exact List.mem_append_left _ (hseen x hx)
  · rw [List.filter_append, List.filter_singleton]
    simpa [hne] using hsublist

/-- The source that has moved. -/
theorem Consumed.take {taken : List (Source × Hit)} {source : Source} {hits skipped rest : List Hit}
    {hit : Hit} (h : Consumed taken source hits (skipped ++ hit :: rest))
    (hskipped : ∀ x ∈ skipped, x.key ∈ keys taken) :
    Consumed (taken ++ [(source, hit)]) source hits rest := by
  obtain ⟨before, hhits, hseen, hsublist⟩ := h
  refine ⟨before ++ skipped ++ [hit], by simp [hhits], ?_, ?_⟩
  · intro x hx
    rw [keys_append]
    rcases List.mem_append.mp hx with hx | hx
    · apply List.mem_append_left
      rcases List.mem_append.mp hx with hx | hx
      · exact hseen x hx
      · exact hskipped x hx
    · obtain rfl := List.mem_singleton.mp hx
      exact List.mem_append_right _ List.mem_cons_self
  · rw [List.filter_append, List.filter_singleton, List.map_append]
    simp only [decide_true]
    exact (hsublist.trans (List.sublist_append_left _ _)).append (List.Sublist.refl _)

theorem Consumed.skip {taken : List (Source × Hit)} {source : Source} {hits rest : List Hit}
    (h : Consumed taken source hits rest) (hrest : ∀ hit ∈ rest, hit.key ∈ keys taken) :
    Consumed taken source hits [] := by
  obtain ⟨before, hhits, hseen, hsublist⟩ := h
  refine ⟨before ++ rest, by simp [hhits], ?_, hsublist.trans (List.sublist_append_left _ _)⟩
  intro x hx
  rcases List.mem_append.mp hx with hx | hx
  · exact hseen x hx
  · exact hrest x hx

theorem Consumed.not_live {taken : List (Source × Hit)} {source : Source} {rest : List Hit}
    (h : Consumed taken source (lists source) rest) (hrest : ∀ hit ∈ rest, hit.key ∈ keys taken) :
    ¬ Live lists taken source := by
  rintro ⟨hit, hmem, hunseen⟩
  obtain ⟨before, hhits, hseen, -⟩ := h
  rw [hhits] at hmem
  rcases List.mem_append.mp hmem with hmem | hmem
  · exact hunseen (hseen hit hmem)
  · exact hunseen (hrest hit hmem)

/-! ## The invariant -/

/-- Appending keeps fairness, if the longer list is fair itself. -/
theorem fair_append {taken : List (Source × Hit)} {t : Source × Hit}
    (h : ∀ front, front <+: taken → Fair lists front) (hall : Fair lists (taken ++ [t])) :
    ∀ front, front <+: taken ++ [t] → Fair lists front := by
  intro front hfront
  rcases List.prefix_concat_iff.mp hfront with rfl | hfront
  · exact hall
  · exact h front hfront

theorem rest_update_self (rest : Source → List Hit) (source : Source) (hits : List Hit) :
    Function.update rest source hits source = hits := Function.update_self ..

/-- A turn keeps the balance, with the other source to move. -/
theorem Merge.Balanced.turn {s : Merge} {source : Source} (hsound : s.Sound lists)
    (h : s.Balanced lists source) : (s.turn source).1.Balanced lists source.other := by
  rcases s.turn_cases source with ⟨hit, rest, -, hturn⟩ | ⟨hnone, hturn⟩
  · rw [hturn]
    -- the source has contributed one hit more, and nobody has come back to life
    cases source with
    | db =>
        constructor
        · intro hlive
          show contributed .file (s.out ++ _) + 1 ≤ contributed .db (s.out ++ _)
          have hdb := h.1 (Live.of_append hlive)
          simp only [contributed_append, reduceCtorEq, if_false, if_true]
          omega
        · intro hlive
          show contributed .db (s.out ++ _) ≤ contributed .file (s.out ++ _) + 1
          have hfile := h.2 (Live.of_append hlive)
          simp only [contributed_append, reduceCtorEq, if_false, if_true]
          omega
    | file =>
        constructor
        · intro hlive
          show contributed .file (s.out ++ _) ≤ contributed .db (s.out ++ _)
          have hdb := h.1 (Live.of_append hlive)
          simp only [contributed_append, reduceCtorEq, if_false, if_true]
          omega
        · intro hlive
          show contributed .db (s.out ++ _) ≤ contributed .file (s.out ++ _)
          have hfile := h.2 (Live.of_append hlive)
          simp only [contributed_append, reduceCtorEq, if_false, if_true]
          omega
  · have hdead := (hsound.consumed source).not_live (nextUnseen_eq_none hnone)
    rw [hturn]
    cases source with
    | db =>
        constructor
        · intro hlive
          exact absurd hlive hdead
        · intro hlive
          exact Nat.le_succ_of_le (h.2 hlive)
    | file =>
        constructor
        · intro hlive
          exact Nat.le_of_succ_le (h.1 hlive)
        · intro hlive
          exact absurd hlive hdead

theorem Merge.Sound.turn {s : Merge} {source : Source} (h : s.Sound lists)
    (hbalanced : s.Balanced lists source) : (s.turn source).1.Sound lists := by
  have hfair := (hbalanced.turn h).fair
  rcases s.turn_cases source with ⟨hit, rest, hnext, hturn⟩ | ⟨hnone, hturn⟩
  · rw [hturn] at hfair ⊢
    obtain ⟨hunseen, skipped, hrest, hskipped⟩ := nextUnseen_eq_some hnext
    refine ⟨?_, ?_, fair_append h.fair hfair⟩
    · show (keys (s.out ++ [(source, hit)])).Nodup
      rw [keys_append]
      refine List.nodup_append.mpr ⟨h.distinct, List.nodup_singleton _, ?_⟩
      intro a ha b hb
      obtain rfl := List.mem_singleton.mp hb
      rintro rfl
      exact hunseen ha
    · intro source'
      show Consumed (s.out ++ [(source, hit)]) source' (lists source')
        (Function.update s.rest source rest source')
      by_cases heq : source' = source
      · subst heq
        have hconsumed := h.consumed source'
        rw [hrest] at hconsumed
        rw [rest_update_self]
        exact hconsumed.take hskipped
      · rw [Function.update_of_ne heq]
        exact (h.consumed source').append hit (Ne.symm heq)
  · rw [hturn]
    refine ⟨h.distinct, ?_, h.fair⟩
    intro source'
    show Consumed s.out source' (lists source') (Function.update s.rest source [] source')
    by_cases heq : source' = source
    · subst heq
      rw [rest_update_self]
      exact (h.consumed source').skip (nextUnseen_eq_none hnone)
    · rw [Function.update_of_ne heq]
      exact h.consumed source'

/-- A turn that adds nothing leaves the source without unseen hits. -/
theorem Merge.not_live_of_turn {s : Merge} {source : Source} (h : s.Sound lists)
    (hturn : (s.turn source).2 = false) :
    (s.turn source).1.out = s.out ∧ ¬ Live lists s.out source := by
  rcases s.turn_cases source with ⟨hit, rest, -, heq⟩ | ⟨hnone, heq⟩
  · rw [heq] at hturn
    cases hturn
  · rw [heq]
    exact ⟨rfl, (h.consumed source).not_live (nextUnseen_eq_none hnone)⟩

theorem Merge.length_turn (s : Merge) (source : Source) :
    (s.turn source).1.out.length ≤ s.out.length + 1 := by
  rcases s.turn_cases source with ⟨hit, rest, -, heq⟩ | ⟨-, heq⟩
  · rw [heq]
    exact le_of_eq List.length_append
  · rw [heq]
    exact Nat.le_succ _

/-- A round that is not cut short keeps the balance; what ends the loop is a long output or
sources without unseen hits. -/
theorem Merge.Sound.round {s : Merge} {depth : ℕ} (h : s.Sound lists)
    (hbalanced : s.Balanced lists .db) (hlength : s.out.length < depth) :
    (s.round depth).1.Sound lists ∧ (s.round depth).1.out.length ≤ depth ∧
      (depth ≤ (s.round depth).1.out.length ∨ (s.round depth).1.Balanced lists .db) ∧
      ((s.round depth).2 = false → ∀ source, ¬ Live lists (s.round depth).1.out source) := by
  have hdb := h.turn hbalanced
  have hdbBalanced := hbalanced.turn h
  have hdbLength := s.length_turn .db
  unfold Merge.round
  dsimp only
  split
  · rename_i hfull
    refine ⟨hdb, Nat.le_trans hdbLength hlength, Or.inl hfull, ?_⟩
    intro hadded
    -- the output is not longer than before
    have hout := (Merge.not_live_of_turn h hadded).1
    rw [hout] at hfull
    omega
  · rename_i hfull
    have hfileLength := (s.turn .db).1.length_turn .file
    refine ⟨hdb.turn hdbBalanced, Nat.le_trans hfileLength (Nat.lt_of_not_le hfull),
      Or.inr (hdbBalanced.turn hdb), ?_⟩
    intro hadded
    obtain ⟨hfirst, hsecond⟩ := Bool.or_eq_false_iff.mp hadded
    obtain ⟨hout, hnoDb⟩ := Merge.not_live_of_turn h hfirst
    obtain ⟨hout', hnoFile⟩ := Merge.not_live_of_turn hdb hsecond
    rw [hout'] at *
    intro source
    rw [hout] at *
    cases source with
    | db => exact hnoDb
    | file => exact hnoFile

theorem Merge.Sound.loop {s : Merge} {depth : ℕ} (h : s.Sound lists)
    (hbalanced : depth ≤ s.out.length ∨ s.Balanced lists .db) (hlength : s.out.length ≤ depth) :
    (s.loop depth).Sound lists ∧ (s.loop depth).out.length ≤ depth ∧
      (depth ≤ (s.loop depth).out.length ∨ ∀ source, ¬ Live lists (s.loop depth).out source) := by
  induction s using Merge.loop.induct depth with
  | case1 s hfull =>
      rw [Merge.loop, if_pos hfull]
      exact ⟨h, hlength, Or.inl hfull⟩
  | case2 s hfull hadded ih =>
      have hround := h.round (hbalanced.resolve_left hfull) (Nat.lt_of_not_le hfull)
      rw [Merge.loop, if_neg hfull, if_pos hadded]
      exact ih hround.1 hround.2.2.1 hround.2.1
  | case3 s hfull hadded =>
      have hround := h.round (hbalanced.resolve_left hfull) (Nat.lt_of_not_le hfull)
      rw [Merge.loop, if_neg hfull, if_neg hadded]
      exact ⟨hround.1, hround.2.1, Or.inr (hround.2.2.2 (by simpa using hadded))⟩

theorem sound_start (lists : Source → List Hit) : (Merge.mk [] lists).Sound lists := by
  refine ⟨List.nodup_nil, ?_, ?_⟩
  · intro source
    exact ⟨[], rfl, by simp, by simp⟩
  · intro taken htaken source _
    obtain rfl := List.prefix_nil.mp htaken
    simp [contributed]

theorem balanced_start (lists : Source → List Hit) : (Merge.mk [] lists).Balanced lists .db :=
  ⟨fun _ => le_refl _, fun _ => le_refl _⟩

/-! ## A single source -/

theorem firstsBy_nextUnseen_some {seen : List Key} {hits rest : List Hit} {hit : Hit}
    (h : nextUnseen seen hits = some (hit, rest)) :
    firstsBy Hit.key seen hits = hit :: firstsBy Hit.key (hit.key :: seen) rest := by
  induction hits with
  | nil => cases h
  | cons first hits ih =>
      rw [nextUnseen] at h
      by_cases hseen : first.key ∈ seen
      · rw [if_pos hseen] at h
        rw [firstsBy_cons_of_mem hits hseen]
        exact ih h
      · rw [if_neg hseen] at h
        cases h
        exact firstsBy_cons_of_notMem rest hseen

theorem firstsBy_nextUnseen_none {seen : List Key} {hits : List Hit}
    (h : nextUnseen seen hits = none) : firstsBy Hit.key seen hits = [] := by
  induction hits with
  | nil => exact firstsBy_nil seen
  | cons first hits ih =>
      rw [nextUnseen] at h
      by_cases hseen : first.key ∈ seen
      · rw [if_pos hseen] at h
        rw [firstsBy_cons_of_mem hits hseen]
        exact ih h
      · rw [if_neg hseen] at h
        cases h

/-- Without hits of the database a round takes the next hit of the index. -/
theorem Merge.round_file {depth : ℕ} {s : Merge} (hdb : s.rest .db = [])
    (hlength : s.out.length < depth) : s.round depth = s.turn .file := by
  have hrest : Function.update s.rest .db [] = s.rest := by
    rw [← hdb]
    exact Function.update_eq_self _ _
  have hturn : s.turn .db = (s, false) := by
    unfold Merge.turn
    rw [hdb, nextUnseen, hrest]
  unfold Merge.round
  rw [hturn]
  dsimp only
  rw [if_neg (Nat.not_le.mpr hlength), Bool.false_or]

theorem Merge.loop_file {depth : ℕ} {s : Merge} (hdb : s.rest .db = []) :
    (s.loop depth).out.map Prod.snd = s.out.map Prod.snd ++
      (firstsBy Hit.key (keys s.out) (s.rest .file)).take (depth - s.out.length) := by
  induction s using Merge.loop.induct depth with
  | case1 s hfull =>
      rw [Merge.loop, if_pos hfull, Nat.sub_eq_zero_of_le hfull, List.take_zero, List.append_nil]
  | case2 s hfull hadded ih =>
      have hlength := Nat.lt_of_not_le hfull
      rw [Merge.loop, if_neg hfull, if_pos hadded]
      rw [Merge.round_file hdb hlength] at hadded ih ⊢
      rcases s.turn_cases .file with ⟨hit, rest, hnext, hturn⟩ | ⟨-, hturn⟩
      · rw [hturn] at ih ⊢
        have hkeys : firstsBy Hit.key (keys (s.out ++ [(Source.file, hit)])) rest =
            firstsBy Hit.key (hit.key :: keys s.out) rest := by
          refine firstsBy_congr rest fun key => ?_
          rw [keys_append, List.mem_append, List.mem_singleton, List.mem_cons, or_comm]
        have hleft : depth - s.out.length = depth - (s.out ++ [(Source.file, hit)]).length + 1 := by
          rw [List.length_append, List.length_singleton]
          omega
        rw [ih (by simpa using hdb), firstsBy_nextUnseen_some hnext, hleft, List.take_succ_cons]
        simp [hkeys]
      · rw [hturn] at hadded
        cases hadded
  | case3 s hfull hadded =>
      have hlength := Nat.lt_of_not_le hfull
      rw [Merge.loop, if_neg hfull, if_neg hadded]
      rw [Merge.round_file hdb hlength] at hadded ⊢
      rcases s.turn_cases .file with ⟨hit, rest, -, hturn⟩ | ⟨hnext, hturn⟩
      · rw [hturn] at hadded
        exact absurd rfl hadded
      · rw [hturn, firstsBy_nextUnseen_none hnext, List.take_nil, List.append_nil]

/-- Without hits of the database the merge drops repeated keys of the index. -/
theorem mergeKeywordSources_file (fileHits : List Hit) (depth : ℕ) :
    mergeKeywordSources [] fileHits depth = (firstsBy Hit.key [] fileHits).take depth := by
  have h := @Merge.loop_file depth ⟨[], sources [] fileHits⟩ rfl
  exact h

/-! ## The merge -/

/-- How many keys the lists have. -/
def distinctKeys (lists : Source → List Hit) : ℕ :=
  ((lists .db ++ lists .file).map Hit.key).toFinset.card

/-- The output interleaves the lists without repeating a key or losing one, and in turns. -/
structure Interleaves (lists : Source → List Hit) (depth : ℕ) (taken : List (Source × Hit)) :
    Prop where
  short : taken.length ≤ depth
  distinct : (keys taken).Nodup
  complete : distinctKeys lists ≤ depth → ∀ source, ∀ hit ∈ lists source, hit.key ∈ keys taken
  inOrder : ∀ source, ((taken.filter fun t => t.1 = source).map Prod.snd).Sublist (lists source)
  fair : ∀ front, front <+: taken → Fair lists front

theorem mem_key_of_taken {s : Merge} (h : s.Sound lists) :
    (keys s.out).toFinset ⊆ ((lists .db ++ lists .file).map Hit.key).toFinset := by
  intro key hkey
  rw [List.mem_toFinset] at hkey ⊢
  obtain ⟨⟨source, hit⟩, hmem, rfl⟩ := List.mem_map.mp hkey
  obtain ⟨before, hhits, -, hsublist⟩ := h.consumed source
  have htaken : hit ∈ (s.out.filter fun t => t.1 = source).map Prod.snd :=
    List.mem_map.mpr ⟨(source, hit), List.mem_filter.mpr ⟨hmem, by simp⟩, rfl⟩
  have hlist : hit ∈ lists source := by
    rw [hhits]
    exact List.mem_append_left _ (hsublist.subset htaken)
  apply List.mem_map_of_mem
  cases source with
  | db => exact List.mem_append_left _ hlist
  | file => exact List.mem_append_right _ hlist

theorem mergeSources_interleaves (lists : Source → List Hit) (depth : ℕ) :
    Interleaves lists depth (mergeSources lists depth) := by
  obtain ⟨hsound, hlength, hend⟩ := (sound_start lists).loop (Or.inr (balanced_start lists))
    (Nat.zero_le depth)
  refine ⟨hlength, hsound.distinct, ?_, ?_, hsound.fair⟩
  · intro hdepth source hit hmem
    rcases hend with hfull | hdead
    · -- as many keys as there are
      have hcard : (keys (mergeSources lists depth)).toFinset.card = depth := by
        show (keys (Merge.loop depth ⟨[], lists⟩).out).toFinset.card = depth
        rw [List.toFinset_card_of_nodup hsound.distinct, keys, List.length_map]
        exact le_antisymm hlength hfull
      have hall : (keys (mergeSources lists depth)).toFinset =
          ((lists .db ++ lists .file).map Hit.key).toFinset :=
        Finset.eq_of_subset_of_card_le (mem_key_of_taken hsound) (by rw [hcard]; exact hdepth)
      rw [← List.mem_toFinset, hall, List.mem_toFinset]
      apply List.mem_map_of_mem
      cases source with
      | db => exact List.mem_append_left _ hmem
      | file => exact List.mem_append_right _ hmem
    · by_contra hunseen
      exact hdead source ⟨hit, hmem, hunseen⟩
  · intro source
    obtain ⟨before, hhits, -, hsublist⟩ := hsound.consumed source
    rw [hhits]
    exact hsublist.trans (List.sublist_append_left _ _)

/-- `_merge_keyword_sources` is a fair interleaving of its sources. -/
theorem mergeKeywordSources_interleaves (dbHits fileHits : List Hit) (depth : ℕ) :
    (mergeSources (sources dbHits fileHits) depth).map Prod.snd =
        mergeKeywordSources dbHits fileHits depth ∧
      Interleaves (sources dbHits fileHits) depth
        (mergeSources (sources dbHits fileHits) depth) := by
  constructor
  · rfl
  · exact mergeSources_interleaves _ depth

end CrawlTrove.Retrieval
