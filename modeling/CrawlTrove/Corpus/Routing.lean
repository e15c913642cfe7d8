import CrawlTrove.Corpus.Writing

/-!
# Contents and targets

The ledger is one for all targets. So the corpus holds what the router asks for
exactly when no content is asked for in two targets; a page of own content is, in
`dapt` and in `sft`, and is never written to the second.
-/

namespace CrawlTrove.Corpus

open Web (Text)
open FirstSeen

section

variable (sha256 : Text → String) (env : Environment)

/-- The contents the router sends to a target: all chunks of a page, or the page. -/
def required (lowTierRagOnly : Option Bool) (calls : List (String × List Record))
    (target : Target) : Set String :=
  { ch | ∃ call ∈ calls, ∃ page ∈ call.2, target ∈ route env page lowTierRagOnly ∧
      ∃ rec ∈ recordsForTarget sha256 page target, rec.contentHash = ch }

/-- The target holds these contents, each once. -/
def HoldsExactly (tree : Tree) (target : Target) (contents : Set String) : Prop :=
  (tree.stored target).Nodup ∧ ∀ ch, ch ∈ tree.stored target ↔ ch ∈ contents

variable {sha256 env}

theorem mem_required_iff (lowTierRagOnly : Option Bool) (calls : List (String × List Record))
    (target : Target) (ch : String) :
    ch ∈ required sha256 env lowTierRagOnly calls target ↔
      ∃ line ∈ asked sha256 env lowTierRagOnly calls,
        line.file.target = target ∧ line.hash = ch := by
  constructor
  · rintro ⟨call, hcall, page, hpage, htarget, rec, hrec, rfl⟩
    refine ⟨lineOf target rec, ?_, rfl, rfl⟩
    apply List.mem_flatMap_of_mem hcall
    apply List.mem_flatMap_of_mem hpage
    apply List.mem_flatMap_of_mem ((mem_sortedTargets _ _).mpr htarget)
    exact List.mem_map_of_mem hrec
  · rintro ⟨line, hline, rfl, rfl⟩
    obtain ⟨call, hcall, hline⟩ := List.mem_flatMap.mp hline
    obtain ⟨page, hpage, hline⟩ := List.mem_flatMap.mp hline
    obtain ⟨target, htarget, hline⟩ := List.mem_flatMap.mp hline
    obtain ⟨rec, hrec, rfl⟩ := List.mem_map.mp hline
    exact ⟨call, hcall, page, hpage, (mem_sortedTargets _ _).mp htarget, rec, hrec, rfl⟩

theorem mem_stored (tree : Tree) (target : Target) (ch : String) :
    ch ∈ tree.stored target ↔
      ∃ line ∈ tree.lines, line.file.target = target ∧ line.hash = ch := by
  simp [Tree.stored, and_assoc]

theorem nodup_stored {tree : Tree} (h : (tree.lines.map Line.hash).Nodup) (target : Target) :
    (tree.stored target).Nodup :=
  h.sublist (List.filter_sublist.map _)

/-- Under these hashes nothing is in two targets. -/
theorem target_unique {tree : Tree} (h : (tree.lines.map Line.hash).Nodup) {ch : String}
    {target target' : Target} (hch : ch ∈ tree.stored target) (hch' : ch ∈ tree.stored target') :
    target = target' := by
  obtain ⟨line, hline, rfl, rfl⟩ := (mem_stored _ _ _).mp hch
  obtain ⟨line', hline', rfl, heq⟩ := (mem_stored _ _ _).mp hch'
  rw [List.inj_on_of_nodup_map h hline hline' heq.symm]

theorem routing_exact_iff (sha256 : Text → String) (env : Environment)
    (lowTierRagOnly : Option Bool) (calls : List (String × List Record)) :
    (∀ target, HoldsExactly (writeAll sha256 env lowTierRagOnly calls {}).tree target
        (required sha256 env lowTierRagOnly calls target)) ↔
      ∀ ch target target', ch ∈ required sha256 env lowTierRagOnly calls target →
        ch ∈ required sha256 env lowTierRagOnly calls target' → target = target' := by
  have hlines : (writeAll sha256 env lowTierRagOnly calls {}).tree.lines =
      firstsBy Line.hash [] (asked sha256 env lowTierRagOnly calls) :=
    (holds_writeAll lowTierRagOnly calls).lines
  have hnodup : ((writeAll sha256 env lowTierRagOnly calls {}).tree.lines.map Line.hash).Nodup := by
    rw [hlines]
    exact nodup_keys_firstsBy _ _
  constructor
  · intro h ch target target' hch hch'
    exact target_unique hnodup (((h target).2 ch).mpr hch) (((h target').2 ch).mpr hch')
  · intro h target
    refine ⟨nodup_stored hnodup target, ?_⟩
    intro ch
    rw [mem_stored, mem_required_iff, hlines]
    constructor
    · rintro ⟨line, hline, hline'⟩
      exact ⟨line, mem_of_mem_firstsBy hline, hline'⟩
    · rintro ⟨line, hline, rfl, rfl⟩
      -- the first line with this hash may be another one, but not of another target
      obtain ⟨first, hfirst, heq⟩ := exists_mem_firstsBy hline (List.not_mem_nil (a := line.hash))
      refine ⟨first, hfirst, ?_, heq⟩
      apply h line.hash
      · exact (mem_required_iff ..).mpr ⟨first, mem_of_mem_firstsBy hfirst, rfl, heq⟩
      · exact (mem_required_iff ..).mpr ⟨line, hline, rfl, rfl⟩

end

namespace Sample

/-- A page record of own content. -/
def ownPage : Record where
  id := "sha256:page"
  source := "own"
  url := "https://example.org/guide".toList
  title := "Guide".toList
  symbol := "Guide".toList
  symbolKind := []
  framework := []
  platforms := []
  availability := { introduced := none }
  scrapedAt := []
  licenseBucket := .ownContent
  contentHash := "sha256:page"
  ns := .unknown
  text := "# Guide\n\nUse await.".toList
  qualityTier := .high

def digest (text : Text) : String := String.ofList text

/-- The page is meant for `sft` as well, but its content is in `dapt` by then. -/
theorem sft_copy_missing :
    ¬ HoldsExactly (writeAll digest {} none [("own", [ownPage])] {}).tree .sft
      (required digest {} none [("own", [ownPage])] .sft) := by
  intro h
  have hnone : (writeAll digest {} none [("own", [ownPage])] {}).tree.stored .sft = [] := by
    decide
  have hrequired : "sha256:page" ∈ required digest {} none [("own", [ownPage])] .sft :=
    ⟨("own", [ownPage]), List.mem_singleton_self _, ownPage, List.mem_singleton_self _, by decide,
      ownPage, List.mem_singleton_self _, rfl⟩
  have hstored := (h.2 _).mpr hrequired
  rw [hnone] at hstored
  exact absurd hstored List.not_mem_nil

end Sample

end CrawlTrove.Corpus
