import CrawlTrove.Relational.FirstSeen
import CrawlTrove.Corpus.Records

/-!
# Writing the corpus

`write_records` (`scripts/build_corpus.py`) routes page records and appends them to
the files of the corpus, past the contents it knows already: those in the ledger of
content hashes, and those it has written itself. `write_spec` says what a call does
in terms of first occurrences.
-/

namespace CrawlTrove.Corpus

open Web (Text Tables)
open FirstSeen

/-! ## The files -/

/-- The file `<target>/<namespace>/<framework>.jsonl`. -/
structure CorpusFile where
  target : Target
  ns : Namespace
  fw : Text
deriving DecidableEq

/-- A record in a file. -/
structure Line where
  file : CorpusFile
  record : Record
deriving DecidableEq

/-- The content of a line, by its hash. -/
def Line.hash (line : Line) : String := line.record.contentHash

/-- A corpus directory: its lines in the order in which they were appended, and the
state file of `generate_sft`. -/
structure Tree where
  lines : List Line := []
  sftState : Option Text := none
deriving DecidableEq

/-- The records in a file. -/
def Tree.contents (tree : Tree) (file : CorpusFile) : List Record :=
  (tree.lines.filter (·.file = file)).map Line.record

/-- The content hashes under a target. -/
def Tree.stored (tree : Tree) (target : Target) : List String :=
  (tree.lines.filter (·.file.target = target)).map Line.hash

/-- A row of `content-hashes.jsonl`. -/
structure HashRow where
  contentHash : String
  url : Text
  source : String
  qualityTier : QualityTier
  parentHash : String
deriving DecidableEq

/-- A row of `sources.jsonl`. -/
structure SourceRow where
  url : Text
  source : String
  contentHash : String
  qualityTier : QualityTier
deriving DecidableEq

/-- A dictionary of counters. -/
abbrev Counts (κ : Type) := List (κ × ℕ)

def Counts.add {κ : Type} [DecidableEq κ] (counts : Counts κ) (k : κ) (n : ℕ) : Counts κ :=
  if counts.any (·.1 = k) then counts.map fun c => if c.1 = k then (c.1, c.2 + n) else c
  else counts ++ [(k, n)]

/-- A row of `rebuilds.jsonl`. -/
structure RebuildEvent where
  at_ : Text
  artifacts : ℕ
  written : Counts Target
  byTier : Counts QualityTier
  bySource : Counts String
  clearedSftState : Bool
deriving DecidableEq

/-- The ledgers under `metadata/`. -/
structure Metadata where
  contentHashes : List HashRow := []
  sources : List SourceRow := []
  rebuilds : List RebuildEvent := []
deriving DecidableEq

/-- The keys of `load_content_hashes`. -/
def Metadata.hashes (m : Metadata) : List String := m.contentHashes.map HashRow.contentHash

def Metadata.recordContentHash (m : Metadata) (row : HashRow) : Metadata :=
  if row.contentHash ∈ m.hashes then m else { m with contentHashes := m.contentHashes ++ [row] }

def Metadata.recordSource (m : Metadata) (row : SourceRow) : Metadata :=
  { m with sources := m.sources ++ [row] }

/-! ## `write_records` -/

structure Stats where
  written : Counts Target := []
  unchanged : ℕ := 0
  byNamespace : Counts Namespace := []
  byTier : Counts QualityTier := []
  noTarget : ℕ := 0
deriving DecidableEq

/-- The keyword arguments of `write_records`, less the directory. -/
structure WriteOptions where
  lowTierRagOnly : Option Bool := none
  skipKnown : Bool := true
  recordProvenance : Bool := true

/-- The variables of `write_records` and what it writes. -/
structure Progress where
  tree : Tree
  metadata : Metadata
  stats : Stats := {}
  seen : List String := []
  countedNs : Bool := false

def lineOf (target : Target) (rec : Record) : Line where
  file := { target, ns := rec.ns, fw := if rec.framework ≠ [] then rec.framework
            else "general".toList }
  record := rec

/-- The two ledger entries of a record that is written. -/
def provenance (source : String) (rec : Record) (m : Metadata) : Metadata :=
  (m.recordContentHash
    { contentHash := rec.contentHash, url := rec.url, source := source
      qualityTier := rec.qualityTier, parentHash := rec.parentHash }).recordSource
    { url := rec.url, source := source, contentHash := rec.contentHash
      qualityTier := rec.qualityTier }

section

variable (sha256 : Text → String) (env : Environment) (opts : WriteOptions) (source : String)
  (known : List String)

/-- The body of the innermost loop. -/
def writeRecord (target : Target) (s : Progress) (rec : Record) : Progress :=
  let ch := rec.contentHash
  if ch ∈ known ∨ ch ∈ s.seen then
    { s with stats := { s.stats with unchanged := s.stats.unchanged + 1 } }
  else
    { tree := { s.tree with lines := s.tree.lines ++ [lineOf target rec] }
      metadata := if opts.recordProvenance then provenance source rec s.metadata else s.metadata
      stats :=
        { s.stats with
          written := s.stats.written.add target 1
          byTier := s.stats.byTier.add rec.qualityTier 1
          byNamespace :=
            if s.countedNs then s.stats.byNamespace else s.stats.byNamespace.add rec.ns 1 }
      seen := ch :: s.seen
      countedNs := true }

/-- One page, in all its targets. -/
def writePage (s : Progress) (page : Record) : Progress :=
  let targets := route env page opts.lowTierRagOnly
  if targets = ∅ then { s with stats := { s.stats with noTarget := s.stats.noTarget + 1 } }
  else
    (sortedTargets targets).foldl
      (fun s target =>
        (recordsForTarget sha256 page target).foldl (writeRecord opts source known target) s)
      { s with countedNs := false }

/-- `write_records`, given the directory it writes to. -/
def writeRecords (records : List Record) (tree : Tree) (metadata : Metadata) : Progress :=
  let known := if opts.skipKnown then metadata.hashes else []
  records.foldl (writePage sha256 env opts source known) { tree, metadata }

/-! ## What is routed -/

/-- The lines the router asks for, for one page. -/
def routedPage (page : Record) : List Line :=
  (sortedTargets (route env page opts.lowTierRagOnly)).flatMap fun target =>
    (recordsForTarget sha256 page target).map (lineOf target)

def routed (records : List Record) : List Line := records.flatMap (routedPage sha256 env opts)

/-! ## A call, in terms of first occurrences -/

/-- The lines that have been added, given those that were asked for, and that the
ledger holds their hashes when it is kept at all. -/
structure Writes (before after : Progress) (asked : List Line) : Prop where
  lines : after.tree.lines =
    before.tree.lines ++ firstsBy Line.hash (before.seen ++ known) asked
  sftState : after.tree.sftState = before.tree.sftState
  seen : ∀ ch, ch ∈ after.seen ++ known ↔
    ch ∈ asked.map Line.hash ∨ ch ∈ before.seen ++ known
  hashes : opts.recordProvenance = true → ∀ ch, ch ∈ after.metadata.hashes ↔
    ch ∈ (firstsBy Line.hash (before.seen ++ known) asked).map Line.hash ∨
      ch ∈ before.metadata.hashes
  metadata : opts.recordProvenance = false → after.metadata = before.metadata

end

theorem mem_hashes_recordContentHash (m : Metadata) (row : HashRow) (ch : String) :
    ch ∈ (m.recordContentHash row).hashes ↔ ch = row.contentHash ∨ ch ∈ m.hashes := by
  by_cases h : row.contentHash ∈ m.hashes
  · rw [Metadata.recordContentHash, if_pos h]
    constructor
    · exact .inr
    · rintro (rfl | hch)
      · exact h
      · exact hch
  · rw [Metadata.recordContentHash, if_neg h]
    simp only [Metadata.hashes, List.map_append, List.mem_append, List.map_cons, List.map_nil,
      List.mem_singleton]
    exact or_comm

theorem mem_hashes_provenance (source : String) (rec : Record) (m : Metadata) (ch : String) :
    ch ∈ (provenance source rec m).hashes ↔ ch = rec.contentHash ∨ ch ∈ m.hashes :=
  mem_hashes_recordContentHash m _ ch

section

variable {sha256 : Text → String} {env : Environment} {opts : WriteOptions} {source : String}
  {known : List String}

@[simp] theorem lineOf_hash (target : Target) (rec : Record) :
    (lineOf target rec).hash = rec.contentHash := rfl

theorem writes_refl (s s' : Progress) (htree : s'.tree = s.tree)
    (hmetadata : s'.metadata = s.metadata) (hseen : s'.seen = s.seen) :
    Writes opts known s s' [] where
  lines := by simp [htree]
  sftState := by rw [htree]
  seen := by simp [hseen]
  hashes := by simp [hmetadata]
  metadata := fun _ => hmetadata

theorem writes_trans {s s' s'' : Progress} {xs ys : List Line} (h : Writes opts known s s' xs)
    (h' : Writes opts known s' s'' ys) : Writes opts known s s'' (xs ++ ys) := by
  have hfirsts : firstsBy Line.hash (s'.seen ++ known) ys =
      firstsBy Line.hash (xs.map Line.hash ++ (s.seen ++ known)) ys := by
    apply firstsBy_congr
    intro ch
    rw [h.seen]
    exact List.mem_append.symm
  refine ⟨?_, h'.sftState.trans h.sftState, ?_, ?_, fun hp => (h'.metadata hp).trans (h.metadata hp)⟩
  · rw [h'.lines, h.lines, firstsBy_append, hfirsts, List.append_assoc]
  · intro ch
    rw [h'.seen, h.seen]
    simp only [List.map_append, List.mem_append]
    tauto
  · intro hp ch
    rw [h'.hashes hp, h.hashes hp, firstsBy_append, hfirsts]
    simp only [List.map_append, List.mem_append]
    tauto

/-- The step lemma. -/
theorem writes_writeRecord (target : Target) (s : Progress) (rec : Record) :
    Writes opts known s (writeRecord opts source known target s rec) [lineOf target rec] := by
  by_cases h : rec.contentHash ∈ known ∨ rec.contentHash ∈ s.seen
  · have hmem : (lineOf target rec).hash ∈ s.seen ++ known :=
      List.mem_append.mpr (h.symm)
    rw [writeRecord, if_pos h]
    refine ⟨?_, rfl, ?_, ?_, fun _ => rfl⟩
    · rw [firstsBy_cons_of_mem _ hmem, firstsBy_nil, List.append_nil]
    · intro ch
      simp only [List.map_cons, List.map_nil, List.mem_singleton]
      constructor
      · exact .inr
      · rintro (rfl | hch)
        · exact hmem
        · exact hch
    · intro _ ch
      rw [firstsBy_cons_of_mem _ hmem]
      simp
  · have hmem : (lineOf target rec).hash ∉ s.seen ++ known := by
      rw [List.mem_append, lineOf_hash]
      exact fun hch => h hch.symm
    rw [writeRecord, if_neg h]
    refine ⟨?_, rfl, ?_, ?_, ?_⟩
    · rw [firstsBy_cons_of_notMem _ hmem, firstsBy_nil]
    · intro ch
      simp only [List.map_cons, List.map_nil, List.cons_append, List.mem_cons, List.not_mem_nil,
        or_false, lineOf_hash]
    · intro hp ch
      rw [firstsBy_cons_of_notMem _ hmem, firstsBy_nil]
      simp only [hp, if_true, mem_hashes_provenance, List.map_cons, List.map_nil,
        List.mem_singleton, lineOf_hash]
    · intro hp
      simp [hp]

theorem writes_foldl {β : Type} {f : Progress → β → Progress} {asked : β → List Line}
    (hstep : ∀ s b, Writes opts known s (f s b) (asked b)) (bs : List β) (s : Progress) :
    Writes opts known s (bs.foldl f s) (bs.flatMap asked) := by
  induction bs generalizing s with
  | nil => exact writes_refl s s rfl rfl rfl
  | cons b bs ih =>
      rw [List.foldl_cons, List.flatMap_cons]
      exact writes_trans (hstep s b) (ih _)

theorem writes_writePage (s : Progress) (page : Record) :
    Writes opts known s (writePage sha256 env opts source known s page)
      (routedPage sha256 env opts page) := by
  by_cases h : route env page opts.lowTierRagOnly = ∅
  · have hnone : routedPage sha256 env opts page = [] := by simp [routedPage, h, sortedTargets]
    rw [writePage, if_pos h, hnone]
    exact writes_refl _ _ rfl rfl rfl
  · rw [writePage, if_neg h]
    have hreset : Writes opts known s { s with countedNs := false } [] :=
      writes_refl s _ rfl rfl rfl
    refine writes_trans hreset ?_
    apply writes_foldl
    intro s target
    rw [← List.flatMap_singleton' (List.map (lineOf target) _), List.flatMap_map]
    exact writes_foldl (fun s rec => writes_writeRecord target s rec) _ s

/-- A call adds what is routed, the first of each content it does not know. -/
theorem write_spec (records : List Record) (tree : Tree) (metadata : Metadata) :
    Writes opts (if opts.skipKnown then metadata.hashes else []) { tree, metadata }
      (writeRecords sha256 env opts source records tree metadata)
      (routed sha256 env opts records) :=
  writes_foldl writes_writePage records _

end

/-! ## The base directory -/

/-- What the scripts keep under `DATA_DIR`: the corpus, a generation being staged,
the previous one, and the ledgers. -/
structure Base where
  corpus : Option Tree := none
  staged : Option Tree := none
  backup : Option Tree := none
  metadata : Metadata := {}
deriving DecidableEq

namespace Base

/-- The corpus, empty where its directory does not exist. -/
def tree (b : Base) : Tree := b.corpus.getD {}

def ensureLayout (b : Base) : Base := { b with corpus := some b.tree }

end Base

section

variable (sha256 : Text → String) (env : Environment)

/-- `write_records` into the corpus, with the ledger. -/
def writeIncremental (lowTierRagOnly : Option Bool) (source : String) (records : List Record)
    (b : Base) : Base :=
  let b := b.ensureLayout
  let p := writeRecords sha256 env { lowTierRagOnly } source records b.tree b.metadata
  { b with corpus := some p.tree, metadata := p.metadata }

/-- Calls one after the other. -/
def writeAll (lowTierRagOnly : Option Bool) (calls : List (String × List Record)) (b : Base) :
    Base :=
  calls.foldl (fun b call => writeIncremental sha256 env lowTierRagOnly call.1 call.2 b) b

/-- What is routed in all of them. -/
def asked (lowTierRagOnly : Option Bool) (calls : List (String × List Record)) : List Line :=
  calls.flatMap fun call => routed sha256 env { lowTierRagOnly } call.2

/-- The corpus holds the first line of each content, and the ledger every content. -/
structure Holds (b : Base) (done : List Line) : Prop where
  lines : b.tree.lines = firstsBy Line.hash [] done
  hashes : ∀ ch, ch ∈ b.metadata.hashes ↔ ch ∈ done.map Line.hash

variable {sha256 env}

theorem holds_empty : Holds {} [] where
  lines := rfl
  hashes := fun _ => Iff.rfl

theorem holds_writeIncremental {b : Base} {done : List Line} (h : Holds b done)
    (lowTierRagOnly : Option Bool) (source : String) (records : List Record) :
    Holds (writeIncremental sha256 env lowTierRagOnly source records b)
      (done ++ routed sha256 env { lowTierRagOnly } records) := by
  have hw : Writes { lowTierRagOnly } b.metadata.hashes { tree := b.tree, metadata := b.metadata }
      (writeRecords sha256 env { lowTierRagOnly } source records b.tree b.metadata)
      (routed sha256 env { lowTierRagOnly } records) := write_spec records b.tree b.metadata
  have hfirsts : firstsBy Line.hash b.metadata.hashes
        (routed sha256 env { lowTierRagOnly } records) =
      firstsBy Line.hash (done.map Line.hash) (routed sha256 env { lowTierRagOnly } records) :=
    firstsBy_congr _ h.hashes
  constructor
  · show (writeRecords sha256 env { lowTierRagOnly } source records b.tree b.metadata).tree.lines = _
    rw [hw.lines, firstsBy_append, ← h.lines, List.append_nil, ← hfirsts]
    rfl
  · intro ch
    show ch ∈ (writeRecords sha256 env { lowTierRagOnly } source records b.tree
      b.metadata).metadata.hashes ↔ _
    rw [hw.hashes rfl, mem_keys_firstsBy, h.hashes, List.nil_append, h.hashes, List.map_append,
      List.mem_append]
    tauto

theorem holds_foldl {b : Base} {done : List Line} (h : Holds b done)
    (lowTierRagOnly : Option Bool) (calls : List (String × List Record)) :
    Holds (writeAll sha256 env lowTierRagOnly calls b)
      (done ++ asked sha256 env lowTierRagOnly calls) := by
  induction calls generalizing b done with
  | nil => simpa [writeAll, asked] using h
  | cons call calls ih =>
      rw [writeAll, List.foldl_cons, asked, List.flatMap_cons, ← List.append_assoc]
      exact ih (holds_writeIncremental h lowTierRagOnly call.1 call.2)

/-- The run lemma. -/
theorem holds_writeAll (lowTierRagOnly : Option Bool) (calls : List (String × List Record)) :
    Holds (writeAll sha256 env lowTierRagOnly calls {}) (asked sha256 env lowTierRagOnly calls) :=
  holds_foldl holds_empty lowTierRagOnly calls

end

end CrawlTrove.Corpus
