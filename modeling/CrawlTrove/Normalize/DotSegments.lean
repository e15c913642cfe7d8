import CrawlTrove.Web.Splitting
import CrawlTrove.Web.Url

/-!
# Dot segments

`_remove_dot_segments` (`app/normalize.py`) rewrites a buffer from its front. On a
path that is empty or begins with a slash it does what a stack of segments does:
`.` is left out, `..` takes the segment before it away, and a path that ends with
either ends with a slash.
-/

namespace CrawlTrove.Normalize

open Web (Text split joinWith)

/-! ## The loop -/

/-- `remove_last_segment`. -/
def removeLastSegment (value : Text) : Text :=
  (value.reverse.dropWhile (· ≠ '/')).tail.reverse

/-- A turn of the loop: the output and what remains. -/
def turn (output : Text) : Text → Text × Text
  | '.' :: '.' :: '/' :: rest => (output, rest)
  | '.' :: '/' :: rest => (output, rest)
  | '/' :: '.' :: '/' :: rest => (output, '/' :: rest)
  | ['/', '.'] => (output, ['/'])
  | '/' :: '.' :: '.' :: '/' :: rest => (removeLastSegment output, '/' :: rest)
  | ['/', '.', '.'] => (removeLastSegment output, ['/'])
  | ['.'] => (output, [])
  | ['.', '.'] => (output, [])
  | '/' :: rest => (output ++ '/' :: rest.takeWhile (· ≠ '/'), rest.dropWhile (· ≠ '/'))
  | remaining => (output ++ remaining.takeWhile (· ≠ '/'), remaining.dropWhile (· ≠ '/'))

/-- The loop, for at most so many tests of its condition. -/
def loop : ℕ → Text → Text → Option Text
  | 0, _, _ => none
  | _ + 1, output, [] => some output
  | fuel + 1, output, c :: remaining =>
      let (output', remaining') := turn output (c :: remaining)
      loop fuel output' remaining'

/-- `_remove_dot_segments`, for at most so many tests of its condition. -/
def removeDotSegments (fuel : ℕ) (path : Text) : Option Text := loop fuel [] path

/-! ## The stack -/

def IsDot (segment : Text) : Prop := segment = ['.'] ∨ segment = ['.', '.']

instance (segment : Text) : Decidable (IsDot segment) := inferInstanceAs (Decidable (_ ∨ _))

/-- A segment meets the stack, whose top is the first. -/
def push (stack : List Text) (segment : Text) : List Text :=
  if segment = ['.'] then stack
  else if segment = ['.', '.'] then stack.tail
  else segment :: stack

/-- A final dot segment leaves a slash. -/
def trailing (segments : List Text) : List Text :=
  match segments.getLast? with
  | some last => if IsDot last then [[]] else []
  | none => []

/-- The segments, each behind a slash. -/
def render (segments : List Text) : Text := segments.flatMap ('/' :: ·)

/-- What the stack makes of segments. -/
def resolve (stack segments : List Text) : List Text :=
  (segments.foldl push stack).reverse ++ trailing segments

/-- What the path should become: the text in front of the first slash is not a
segment. -/
def segmentStack (path : Text) : Text := render (resolve [] (split '/' path).tail)

/-! ## Segments and texts -/

/-- Segments have no slash. -/
def Slashless (segments : List Text) : Prop := ∀ segment ∈ segments, '/' ∉ segment

theorem render_cons (segment : Text) (segments : List Text) :
    render (segment :: segments) = '/' :: segment ++ render segments := rfl

theorem render_append (segments segments' : List Text) :
    render (segments ++ segments') = render segments ++ render segments' :=
  List.flatMap_append

theorem split_render {segments : List Text} (h : Slashless segments) :
    split '/' (render segments) = [] :: segments := by
  induction segments with
  | nil => rfl
  | cons segment segments ih =>
      have hsegment : '/' ∉ segment := h segment List.mem_cons_self
      have hrest : Slashless segments := fun s hs => h s (List.mem_cons_of_mem segment hs)
      rw [render_cons, List.cons_append, split, if_pos rfl]
      cases segments with
      | nil => rw [render, List.flatMap_nil, List.append_nil, Web.split_eq_singleton hsegment]
      | cons next segments =>
          have htail := ih hrest
          rw [render_cons, List.cons_append, split, if_pos rfl] at htail
          rw [render_cons, List.cons_append, Web.split_append hsegment, (List.cons.inj htail).2]

/-- A path that is empty or begins with a slash consists of its segments. -/
theorem exists_render {path : Text} (h : path = [] ∨ path.head? = some '/') :
    ∃ segments, Slashless segments ∧ path = render segments := by
  cases path with
  | nil => exact ⟨[], by simp [Slashless], rfl⟩
  | cons c rest =>
      obtain rfl : c = '/' := by simpa using h
      refine ⟨split '/' rest, fun segment => Web.not_mem_of_mem_split, ?_⟩
      have hrender : ∀ parts : List Text, parts ≠ [] →
          render parts = '/' :: joinWith ['/'] parts := by
        intro parts
        induction parts with
        | nil => exact fun hne => absurd rfl hne
        | cons part parts ih =>
            intro _
            cases parts with
            | nil => simp [render, joinWith]
            | cons next parts =>
                rw [render_cons, ih (by simp),
                  Web.joinWith_cons ['/'] part (List.cons_ne_nil next parts)]
                simp
      rw [hrender _ (Web.split_ne_nil '/' rest), Web.joinWith_split]

/-! ## One turn -/

theorem removeLastSegment_render {segments : List Text} {segment : Text} (h : '/' ∉ segment) :
    removeLastSegment (render (segments ++ [segment])) = render segments := by
  have hdrop : (segment.reverse ++ '/' :: (render segments).reverse).dropWhile (· ≠ '/') =
      '/' :: (render segments).reverse := by
    rw [List.dropWhile_append_of_pos]
    · simp
    · intro c hc
      have hne : c ≠ '/' := fun heq => h (heq ▸ List.mem_reverse.mp hc)
      exact decide_eq_true hne
  have hreverse : (render (segments ++ [segment])).reverse =
      segment.reverse ++ '/' :: (render segments).reverse := by
    rw [render_append]
    simp [render]
  rw [removeLastSegment, hreverse, hdrop, List.tail_cons, List.reverse_reverse]

/-- Taking the last segment away is popping the stack. -/
theorem removeLastSegment_reverse {stack : List Text} (h : Slashless stack) :
    removeLastSegment (render stack.reverse) = render stack.tail.reverse := by
  cases stack with
  | nil => rfl
  | cons segment stack =>
      rw [List.reverse_cons, removeLastSegment_render (h segment List.mem_cons_self),
        List.tail_cons]

theorem Slashless.push {stack : List Text} {segment : Text} (h : Slashless stack)
    (hsegment : '/' ∉ segment) : Slashless (push stack segment) := by
  unfold Normalize.push
  split
  · exact h
  · split
    · exact fun s hs => h s (List.mem_of_mem_tail hs)
    · intro s hs
      rcases List.mem_cons.mp hs with rfl | hs
      · exact hsegment
      · exact h s hs

/-- What is in front of the next slash is a segment. -/
theorem span_segment {segment : Text} (h : '/' ∉ segment) (segments : List Text) :
    (segment ++ render segments).takeWhile (· ≠ '/') = segment ∧
      (segment ++ render segments).dropWhile (· ≠ '/') = render segments := by
  have hall : ∀ c ∈ segment, decide (c ≠ '/') = true := by
    intro c hc
    exact decide_eq_true fun heq => h (heq ▸ hc)
  rw [List.takeWhile_append_of_pos hall, List.dropWhile_append_of_pos hall]
  cases segments with
  | nil => simp [render]
  | cons next segments => simp [render]

/-- A segment that is not a dot segment goes to the output. -/
theorem turn_ordinary {segment : Text} (h : '/' ∉ segment) (hdot : ¬ IsDot segment)
    (output : Text) (segments : List Text) :
    turn output (render (segment :: segments)) = (output ++ '/' :: segment, render segments) := by
  obtain ⟨htake, hdrop⟩ := span_segment h segments
  have hne : ∀ text, segment ++ render segments ≠ '.' :: '/' :: text := by
    intro text heq
    rw [heq] at htake
    exact hdot (Or.inl (by simpa using htake.symm))
  have hne' : ∀ text, segment ++ render segments ≠ '.' :: '.' :: '/' :: text := by
    intro text heq
    rw [heq] at htake
    exact hdot (Or.inr (by simpa using htake.symm))
  have hend : segment ++ render segments ≠ ['.'] := by
    intro heq
    rw [heq] at htake
    exact hdot (Or.inl (by simpa using htake.symm))
  have hend' : segment ++ render segments ≠ ['.', '.'] := by
    intro heq
    rw [heq] at htake
    exact hdot (Or.inr (by simpa using htake.symm))
  rw [render_cons, List.cons_append, turn, htake, hdrop]
  · exact fun text heq => hne text heq
  · exact hend
  · exact fun text heq => hne' text heq
  · exact hend'

/-- A dot segment with more behind it goes away. -/
theorem turn_dot (output : Text) (next : Text) (segments : List Text) :
    turn output (render (['.'] :: next :: segments)) = (output, render (next :: segments)) := rfl

theorem turn_dots (output : Text) (next : Text) (segments : List Text) :
    turn output (render (['.', '.'] :: next :: segments)) =
      (removeLastSegment output, render (next :: segments)) := rfl

/-- At the end it leaves a slash. -/
theorem turn_dot_end (output : Text) : turn output (render [['.']]) = (output, ['/']) := rfl

theorem turn_dots_end (output : Text) :
    turn output (render [['.', '.']]) = (removeLastSegment output, ['/']) := rfl

/-! ## All turns -/

theorem loop_cons (fuel : ℕ) (output : Text) (segment : Text) (segments : List Text) :
    loop (fuel + 1) output (render (segment :: segments)) =
      loop fuel (turn output (render (segment :: segments))).1
        (turn output (render (segment :: segments))).2 := rfl

theorem trailing_cons (segment next : Text) (segments : List Text) :
    trailing (segment :: next :: segments) = trailing (next :: segments) := by
  rw [trailing, trailing, List.getLast?_cons_cons]

theorem resolve_cons (stack : List Text) (segment next : Text) (segments : List Text) :
    resolve stack (segment :: next :: segments) = resolve (push stack segment) (next :: segments) := by
  rw [resolve, resolve, trailing_cons, List.foldl_cons]

/-- Behind a final dot segment the loop adds a slash. -/
theorem loop_slash (fuel : ℕ) (stack : List Text) :
    loop (fuel + 2) (render stack.reverse) ['/'] = some (render (stack.reverse ++ [[]])) := by
  simp [loop, turn, render]

/-- The output is the stack, what remains are the segments that did not meet it yet. -/
theorem loop_render {segments stack : List Text} (hsegments : Slashless segments)
    (hstack : Slashless stack) (fuel : ℕ) (hfuel : (render segments).length < fuel) :
    loop fuel (render stack.reverse) (render segments) = some (render (resolve stack segments)) := by
  induction segments generalizing stack fuel with
  | nil =>
      obtain ⟨fuel, rfl⟩ := Nat.exists_eq_add_of_lt hfuel
      simp [render, loop, resolve, trailing]
  | cons segment segments ih =>
      have hsegment : '/' ∉ segment := hsegments segment List.mem_cons_self
      have hrest : Slashless segments := fun s hs => hsegments s (List.mem_cons_of_mem segment hs)
      have hpush := hstack.push hsegment
      rw [render_cons, List.length_append, List.length_cons] at hfuel
      obtain ⟨fuel, rfl⟩ : ∃ n, fuel = n + 1 := ⟨fuel - 1, by omega⟩
      have htail := ih hrest hpush fuel (by omega)
      rw [loop_cons]
      by_cases hdot : IsDot segment
      · cases segments with
        | nil =>
            obtain ⟨fuel, rfl⟩ : ∃ n, fuel = n + 2 := by
              refine ⟨fuel - 2, ?_⟩
              rcases hdot with rfl | rfl <;> simp [render] at hfuel <;> omega
            have hresolve : resolve stack [segment] = (push stack segment).reverse ++ [[]] := by
              simp [resolve, trailing, hdot]
            rw [hresolve, ← loop_slash fuel]
            rcases hdot with rfl | rfl
            · rw [turn_dot_end]
              rfl
            · rw [turn_dots_end, removeLastSegment_reverse hstack]
              rfl
        | cons next segments =>
            rw [resolve_cons, ← htail]
            rcases hdot with rfl | rfl
            · rw [turn_dot]
              rfl
            · rw [turn_dots, removeLastSegment_reverse hstack]
              rfl
      · have hpushed : push stack segment = segment :: stack := by
          rw [push, if_neg fun h => hdot (Or.inl h), if_neg fun h => hdot (Or.inr h)]
        rw [hpushed] at htail
        have hresolve : resolve stack (segment :: segments) = resolve (segment :: stack) segments := by
          cases segments with
          | nil => simp [resolve, trailing, hdot, hpushed]
          | cons next segments => rw [resolve_cons, hpushed]
        rw [turn_ordinary hsegment hdot, hresolve, ← htail, List.reverse_cons, render_append]
        simp [render]

/-! ## What comes out -/

/-- No dot segment is on the stack. -/
def Dotless (segments : List Text) : Prop := ∀ segment ∈ segments, ¬ IsDot segment

theorem dotless_resolve {segments stack : List Text} (h : Dotless stack) :
    Dotless (resolve stack segments) := by
  have hfold : Dotless (segments.foldl push stack) := by
    induction segments generalizing stack with
    | nil => exact h
    | cons segment segments ih =>
        apply ih
        unfold push
        split
        · exact h
        · split
          · exact fun s hs => h s (List.mem_of_mem_tail hs)
          · rename_i hone htwo
            intro s hs
            rcases List.mem_cons.mp hs with rfl | hs
            · exact not_or.mpr ⟨hone, htwo⟩
            · exact h s hs
  intro segment hmem
  rcases List.mem_append.mp hmem with hmem | hmem
  · exact hfold segment (List.mem_reverse.mp hmem)
  · unfold trailing at hmem
    split at hmem
    · split at hmem
      · rw [List.mem_singleton.mp hmem]
        decide
      · simp at hmem
    · simp at hmem

theorem slashless_resolve {segments stack : List Text} (h : Slashless stack)
    (hsegments : Slashless segments) : Slashless (resolve stack segments) := by
  have hfold : Slashless (segments.foldl push stack) := by
    induction segments generalizing stack with
    | nil => exact h
    | cons segment segments ih =>
        apply ih (h.push (hsegments segment List.mem_cons_self))
        exact fun s hs => hsegments s (List.mem_cons_of_mem segment hs)
  intro segment hmem
  rcases List.mem_append.mp hmem with hmem | hmem
  · exact hfold segment (List.mem_reverse.mp hmem)
  · unfold trailing at hmem
    split at hmem
    · split at hmem
      · rw [List.mem_singleton.mp hmem]
        exact List.not_mem_nil
      · simp at hmem
    · simp at hmem

/-- Without dot segments nothing happens. -/
theorem resolve_of_dotless {segments : List Text} (h : Dotless segments) :
    resolve [] segments = segments := by
  have hfold : ∀ stack : List Text, segments.foldl push stack = segments.reverse ++ stack := by
    induction segments with
    | nil => simp
    | cons segment segments ih =>
        intro stack
        have hdot := not_or.mp (h segment List.mem_cons_self)
        rw [List.foldl_cons, push, if_neg hdot.1, if_neg hdot.2,
          ih fun s hs => h s (List.mem_cons_of_mem segment hs)]
        simp
  have htrailing : trailing segments = [] := by
    unfold trailing
    cases hlast : segments.getLast? with
    | none => rfl
    | some last => exact if_neg (h last (List.mem_of_getLast? hlast))
  rw [resolve, hfold, htrailing]
  simp

/-- On a path that is empty or begins with a slash the loop ends, with what the stack of
segments makes of the path; that has no dot segment, and the loop leaves it alone. -/
theorem removeDotSegments_spec (path : Text) (h : path = [] ∨ path.head? = some '/') :
    ∃ result, (∀ fuel, path.length < fuel → removeDotSegments fuel path = some result) ∧
      result = segmentStack path ∧
      (∀ segment ∈ split '/' result, segment ≠ ['.'] ∧ segment ≠ ['.', '.']) ∧
      ∀ fuel, result.length < fuel → removeDotSegments fuel result = some result := by
  obtain ⟨segments, hslash, rfl⟩ := exists_render h
  have hempty : Slashless [] := by simp [Slashless]
  have hresolved : Slashless (resolve [] segments) := slashless_resolve hempty hslash
  have hdotless : Dotless (resolve [] segments) := dotless_resolve (by simp [Dotless])
  refine ⟨render (resolve [] segments), ?_, ?_, ?_, ?_⟩
  · intro fuel hfuel
    exact loop_render hslash hempty fuel hfuel
  · rw [segmentStack, split_render hslash, List.tail_cons]
  · intro segment hmem
    rw [split_render hresolved] at hmem
    rcases List.mem_cons.mp hmem with rfl | hmem
    · simp
    · exact not_or.mp (hdotless segment hmem)
  · intro fuel hfuel
    have hloop := loop_render hresolved hempty fuel hfuel
    rw [resolve_of_dotless hdotless] at hloop
    exact hloop

def samplePath : Text := "/a//../b/..".toList

theorem removeDotSegments_sample :
    ∃ result, (∀ fuel, samplePath.length < fuel →
        removeDotSegments fuel samplePath = some result) ∧
      result = segmentStack samplePath ∧
      (∀ segment ∈ split '/' result, segment ≠ ['.'] ∧ segment ≠ ['.', '.']) ∧
      ∀ fuel, result.length < fuel → removeDotSegments fuel result = some result :=
  removeDotSegments_spec samplePath (by decide)

example : removeDotSegments 12 samplePath = some "/a/".toList := by decide +kernel

end CrawlTrove.Normalize
