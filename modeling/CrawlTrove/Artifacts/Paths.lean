import CrawlTrove.Web.Splitting
import CrawlTrove.Web.Url

/-!
# Paths

`PurePosixPath`: a text is parsed into the slashes it begins with and its parts,
a path is joined with a further text, and written down again. A text that names
one file is one part; any other text may add more parts than one, none, or
replace the whole path.
-/

namespace CrawlTrove.Artifacts

open Web (Text split joinWith)

/-- What a path can have between two slashes. -/
def IsPart (part : Text) : Prop := part ≠ [] ∧ part ≠ ['.'] ∧ '/' ∉ part

instance (part : Text) : Decidable (IsPart part) :=
  inferInstanceAs (Decidable (_ ∧ _ ∧ _))

/-- `PurePosixPath.root`. -/
inductive Anchor where
  | relative
  | slash
  | slashes
  deriving DecidableEq

structure PurePath where
  anchor : Anchor
  parts : List Text
  isPart : ∀ part ∈ parts, IsPart part
  deriving DecidableEq

namespace PurePath

/-- The slashes a text begins with. Two are kept, three or more are one. -/
def anchorOf : Text → Anchor
  | '/' :: '/' :: '/' :: _ => .slash
  | '/' :: '/' :: _ => .slashes
  | '/' :: _ => .slash
  | _ => .relative

/-- `PurePosixPath(text)`. -/
def parse (text : Text) : PurePath where
  anchor := anchorOf text
  parts := (split '/' text).filter fun part => part ≠ [] ∧ part ≠ ['.']
  isPart part hpart := by
    obtain ⟨hsplit, hne⟩ := List.mem_filter.mp hpart
    obtain ⟨hempty, hdot⟩ := of_decide_eq_true hne
    exact ⟨hempty, hdot, Web.not_mem_of_mem_split hsplit⟩

/-- `self / text`. A text that begins with a slash replaces the path. -/
def join (self : PurePath) (text : Text) : PurePath :=
  match (parse text).anchor with
  | .relative =>
      { anchor := self.anchor
        parts := self.parts ++ (parse text).parts
        isPart := by
          intro part hpart
          rcases List.mem_append.mp hpart with h | h
          · exact self.isPart part h
          · exact (parse text).isPart part h }
  | _ => parse text

instance : HDiv PurePath Text PurePath := ⟨join⟩

/-- `str(self)`. -/
def str (self : PurePath) : Text :=
  match self.anchor with
  | .relative => if self.parts = [] then ['.'] else joinWith ['/'] self.parts
  | .slash => '/' :: joinWith ['/'] self.parts
  | .slashes => '/' :: '/' :: joinWith ['/'] self.parts

/-- `self.relative_to(other)` does not raise. -/
def within (self other : PurePath) : Bool :=
  self.anchor = other.anchor && other.parts.isPrefixOf self.parts

/-- `self.parent`. -/
def parent (self : PurePath) : PurePath where
  anchor := self.anchor
  parts := self.parts.dropLast
  isPart part hpart := self.isPart part (List.mem_of_mem_dropLast hpart)

/-- `self` and `self.parents`. -/
def ancestors (self : PurePath) : List PurePath :=
  (List.range (self.parts.length + 1)).map fun n =>
    { anchor := self.anchor
      parts := self.parts.take n
      isPart := fun part hpart => self.isPart part (List.mem_of_mem_take hpart) }

@[ext]
theorem ext {p q : PurePath} (hanchor : p.anchor = q.anchor) (hparts : p.parts = q.parts) :
    p = q := by
  obtain ⟨anchor, parts, _⟩ := p
  obtain ⟨anchor', parts', _⟩ := q
  obtain rfl : anchor = anchor' := hanchor
  obtain rfl : parts = parts' := hparts
  rfl

/-! ## Parts -/

theorem anchorOf_of_isPart {part : Text} (h : IsPart part) : anchorOf part = .relative := by
  obtain ⟨hne, -, hslash⟩ := h
  cases part with
  | nil => exact absurd rfl hne
  | cons c rest =>
      have hc : c ≠ '/' := fun h => hslash (h ▸ List.mem_cons_self)
      unfold anchorOf
      split <;> simp_all

theorem parts_parse_of_isPart {part : Text} (h : IsPart part) : (parse part).parts = [part] := by
  obtain ⟨hne, hdot, hslash⟩ := h
  simp [parse, Web.split_eq_singleton hslash, hne, hdot]

/-- Joining with one part adds it. -/
theorem join_of_isPart (p : PurePath) {part : Text} (h : IsPart part) :
    (p / part).anchor = p.anchor ∧ (p / part).parts = p.parts ++ [part] := by
  have hanchor : (parse part).anchor = .relative := anchorOf_of_isPart h
  change (join p part).anchor = p.anchor ∧ (join p part).parts = _
  unfold join
  rw [hanchor, ← parts_parse_of_isPart h]
  exact ⟨rfl, rfl⟩

@[simp]
theorem anchor_join {p : PurePath} {part : Text} (h : IsPart part) :
    (p / part).anchor = p.anchor := (join_of_isPart p h).1

@[simp]
theorem parts_join {p : PurePath} {part : Text} (h : IsPart part) :
    (p / part).parts = p.parts ++ [part] := (join_of_isPart p h).2

theorem within_iff {p q : PurePath} :
    p.within q = true ↔ p.anchor = q.anchor ∧ q.parts <+: p.parts := by
  simp [within]

theorem mem_ancestors {p q : PurePath} (h : p ∈ q.ancestors) : p.parts <+: q.parts := by
  obtain ⟨n, -, rfl⟩ := List.mem_map.mp h
  exact List.take_prefix n q.parts

theorem isPart_take_two {part : Text} (h : IsPart part) : IsPart (part.take 2) := by
  obtain ⟨hne, hdot, hslash⟩ := h
  refine ⟨?_, ?_, fun hmem => hslash (List.mem_of_mem_take hmem)⟩
  · simpa using hne
  · intro htake
    match part with
    | [] => exact absurd rfl hne
    | [c] => exact hdot htake
    | c :: d :: rest => simp at htake

/-- An absolute path is read back from its text. -/
theorem parse_str {p : PurePath} (h : p.anchor = .slash) : parse p.str = p := by
  have hparts : ∀ part ∈ p.parts, '/' ∉ part := fun part hpart => (p.isPart part hpart).2.2
  have hkeep : p.parts.filter (fun part => part ≠ [] ∧ part ≠ ['.']) = p.parts := by
    apply List.filter_eq_self.mpr
    intro part hpart
    exact decide_eq_true ⟨(p.isPart part hpart).1, (p.isPart part hpart).2.1⟩
  have hstr : p.str = '/' :: joinWith ['/'] p.parts := by rw [str, h]
  have hsplit : (split '/' (joinWith ['/'] p.parts)).filter
      (fun part => part ≠ [] ∧ part ≠ ['.']) = p.parts := by
    by_cases hempty : p.parts = []
    · rw [hempty]
      rfl
    · rw [Web.split_joinWith hempty hparts, hkeep]
  have hfirst : ∀ text, joinWith ['/'] p.parts ≠ '/' :: text := by
    intro text htext
    cases hcases : p.parts with
    | nil => simp [hcases, joinWith] at htext
    | cons part parts =>
        obtain ⟨hne, -, hslash⟩ := p.isPart part (hcases ▸ List.mem_cons_self)
        obtain ⟨c, rest, rfl⟩ := List.exists_cons_of_ne_nil hne
        have hc : c = '/' := by
          cases parts with
          | nil =>
              rw [hcases] at htext
              exact (List.cons.inj htext).1
          | cons next parts =>
              rw [hcases] at htext
              exact (List.cons.inj htext).1
        exact hslash (hc ▸ List.mem_cons_self)
  apply ext
  · change anchorOf p.str = p.anchor
    rw [hstr, h]
    unfold anchorOf
    split
    · rfl
    · rename_i tail _ heq
      exact absurd (List.cons.inj heq).2 (hfirst tail)
    · rfl
    · rename_i hnone
      exact absurd rfl (hnone _)
  · change (split '/' p.str).filter _ = p.parts
    rw [hstr, split, if_pos rfl, List.filter_cons_of_neg (by simp), hsplit]

end PurePath

end CrawlTrove.Artifacts
