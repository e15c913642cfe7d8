import CrawlTrove.Normalize.Url
import CrawlTrove.Web.Written

/-!
# Reading a normalized URL

A normalized URL is split into the parts it was written from. Its path and its query are
not longer than those of the URL it was made of.
-/

namespace CrawlTrove.Normalize

open Web

/-! ## Texts -/

theorem rstrip_initial (c : Char) (s : Text) : rstrip c s <+: s := by
  have h := List.dropWhile_suffix (fun d => decide (d = c)) (l := s.reverse)
  rw [← List.reverse_prefix, List.reverse_reverse] at h
  exact h

theorem mem_rstrip {c d : Char} {s : Text} (h : d ∈ rstrip c s) : d ∈ s :=
  (rstrip_initial c s).mem h

@[simp] theorem encodedLength_nil : encodedLength [] = 0 := rfl

@[simp] theorem encodedLength_cons (c : Char) (s : Text) :
    encodedLength (c :: s) = c.utf8Size + encodedLength s := by
  simp [encodedLength]

@[simp] theorem encodedLength_append (s t : Text) :
    encodedLength (s ++ t) = encodedLength s + encodedLength t := by
  simp [encodedLength]

theorem encodedLength_sublist {s t : Text} (h : s.Sublist t) : encodedLength s ≤ encodedLength t := by
  induction h with
  | slnil => exact le_rfl
  | cons c _ ih =>
    rw [encodedLength_cons]
    omega
  | cons_cons c _ ih =>
    rw [encodedLength_cons, encodedLength_cons]
    omega

/-! ## Escapes -/

theorem hexValue?_range {c : Char} {n : ℕ} (h : Inet.hexValue? c = some n) :
    c.toNat < 128 ∧ n < 16 := by
  have h0 : '0'.toNat = 48 := rfl
  have h9 : '9'.toNat = 57 := rfl
  have ha : 'a'.toNat = 97 := rfl
  have hf : 'f'.toNat = 102 := rfl
  have hA : 'A'.toNat = 65 := rfl
  have hF : 'F'.toNat = 70 := rfl
  have hle : ∀ d e : Char, d ≤ e ↔ d.toNat ≤ e.toNat := fun d e => UInt32.le_iff_toNat_le
  simp only [Inet.hexValue?, Inet.isDigit, Bool.and_eq_true, decide_eq_true_eq, hle] at h
  split at h
  · obtain rfl := Option.some.inj h
    omega
  · split at h
    · obtain rfl := Option.some.inj h
      omega
    · split at h
      · obtain rfl := Option.some.inj h
        omega
      · cases h

theorem utf8Size_of_ascii {c : Char} (h : c.toNat < 128) : c.utf8Size = 1 := by
  rw [Char.utf8Size_eq_one_iff, UInt32.le_iff_toNat_le]
  exact Nat.le_of_lt_succ h

theorem upperHex_unreserved : ∀ n < 16, isUnreserved (upperHex n) = true := by decide

theorem toNat_of_unreserved {c : Char} (h : isUnreserved c = true) : c.toNat < 128 := by
  have hz : 'z'.toNat = 122 := rfl
  have hZ : 'Z'.toNat = 90 := rfl
  have h9 : '9'.toNat = 57 := rfl
  have hle : ∀ d e : Char, d.val ≤ e.val ↔ d.toNat ≤ e.toNat := fun d e => UInt32.le_iff_toNat_le
  simp only [isUnreserved, Char.isAlphanum, Char.isAlpha, Char.isUpper, Char.isLower, Char.isDigit,
    Bool.or_eq_true, Bool.and_eq_true, decide_eq_true_eq, ge_iff_le, List.mem_cons,
    List.not_mem_nil, or_false, hle] at h
  obtain ((⟨-, h⟩ | ⟨-, h⟩) | ⟨-, h⟩) | rfl | rfl | rfl | rfl := h
  · omega
  · omega
  · omega
  all_goals decide

theorem escape_cases (high low : ℕ) :
    (∃ c, isUnreserved c = true ∧ escape high low = [c]) ∨
      escape high low = ['%', upperHex high, upperHex low] := by
  unfold escape
  dsimp only
  split
  · next h => exact .inl ⟨_, h, rfl⟩
  · exact .inr rfl

theorem normalizePercentEncoding_escape {a b : Char} {high low : ℕ}
    (ha : Inet.hexValue? a = some high) (hb : Inet.hexValue? b = some low) (rest : Text) :
    normalizePercentEncoding ('%' :: a :: b :: rest) =
      escape high low ++ normalizePercentEncoding rest := by
  rw [normalizePercentEncoding]
  simp only [ha, hb]

theorem normalizePercentEncoding_percent {a b : Char}
    (h : ∀ high low, Inet.hexValue? a = some high → Inet.hexValue? b = some low → False)
    (rest : Text) :
    normalizePercentEncoding ('%' :: a :: b :: rest) =
      '%' :: normalizePercentEncoding (a :: b :: rest) := by
  rw [normalizePercentEncoding]
  split
  · next high low ha hb => exact (h high low ha hb).elim
  · rfl

theorem normalizePercentEncoding_cons {c : Char} {rest : Text}
    (h : ∀ a b rest', c = '%' → rest = a :: b :: rest' → False) :
    normalizePercentEncoding (c :: rest) = c :: normalizePercentEncoding rest := by
  rw [normalizePercentEncoding]
  exact h

theorem encodedLength_escape {a b : Char} {high low : ℕ} (ha : Inet.hexValue? a = some high)
    (hb : Inet.hexValue? b = some low) :
    encodedLength (escape high low) ≤ encodedLength ['%', a, b] := by
  obtain ⟨ha', hhigh⟩ := hexValue?_range ha
  obtain ⟨hb', hlow⟩ := hexValue?_range hb
  have hescape : ∀ n < 16, (upperHex n).utf8Size = 1 :=
    fun n hn => utf8Size_of_ascii (toNat_of_unreserved (upperHex_unreserved n hn))
  have hpercent : '%'.utf8Size = 1 := rfl
  obtain ⟨c, hc, heq⟩ | heq := escape_cases high low
  · have := utf8Size_of_ascii (toNat_of_unreserved hc)
    simp only [heq, encodedLength_cons, encodedLength_nil]
    omega
  · simp only [heq, encodedLength_cons, encodedLength_nil, hescape high hhigh, hescape low hlow,
      utf8Size_of_ascii ha', utf8Size_of_ascii hb', le_refl]

theorem encodedLength_normalizePercentEncoding (s : Text) :
    encodedLength (normalizePercentEncoding s) ≤ encodedLength s := by
  induction s using normalizePercentEncoding.induct with
  | case1 a b rest high low hlow hhigh ih =>
    rw [normalizePercentEncoding_escape hhigh hlow, encodedLength_append]
    have := encodedLength_escape hhigh hlow
    simp only [encodedLength_cons, encodedLength_nil] at this ⊢
    omega
  | case2 a b rest hnone ih =>
    rw [normalizePercentEncoding_percent hnone, encodedLength_cons, encodedLength_cons]
    omega
  | case3 c rest hne ih =>
    rw [normalizePercentEncoding_cons hne, encodedLength_cons, encodedLength_cons]
    omega
  | case4 => exact le_rfl

/-- Nothing but unreserved characters is new. -/
theorem mem_normalizePercentEncoding {c : Char} {s : Text}
    (h : c ∈ normalizePercentEncoding s) : c ∈ s ∨ isUnreserved c = true := by
  induction s using normalizePercentEncoding.induct with
  | case1 a b rest high low hlow hhigh ih =>
    rw [normalizePercentEncoding_escape hhigh hlow, List.mem_append] at h
    obtain h | h := h
    · obtain ⟨d, hd, heq⟩ | heq := escape_cases high low
      · rw [heq, List.mem_singleton] at h
        exact .inr (h ▸ hd)
      · rw [heq] at h
        simp only [List.mem_cons, List.not_mem_nil, or_false] at h
        obtain rfl | rfl | rfl := h
        · exact .inl (by simp)
        · exact .inr (upperHex_unreserved high (hexValue?_range hhigh).2)
        · exact .inr (upperHex_unreserved low (hexValue?_range hlow).2)
    · exact (ih h).imp_left fun hmem => by simp [hmem]
  | case2 a b rest hnone ih =>
    rw [normalizePercentEncoding_percent hnone] at h
    obtain rfl | h := List.mem_cons.mp h
    · exact .inl (by simp)
    · exact (ih h).imp_left fun hmem => List.mem_cons_of_mem _ hmem
  | case3 d rest hne ih =>
    rw [normalizePercentEncoding_cons hne] at h
    obtain rfl | h := List.mem_cons.mp h
    · exact .inl (by simp)
    · exact (ih h).imp_left fun hmem => List.mem_cons_of_mem _ hmem
  | case4 => cases h

theorem normalizePercentEncoding_slash (rest : Text) :
    normalizePercentEncoding ('/' :: rest) = '/' :: normalizePercentEncoding rest :=
  normalizePercentEncoding_cons fun _ _ _ h _ => by cases h

/-! ## Paths and queries -/

/-- A turn takes characters away. -/
theorem turn_sublist (output remaining : Text) :
    ((turn output remaining).1 ++ (turn output remaining).2).Sublist (output ++ remaining) := by
  have hlast : (removeLastSegment output).Sublist output := by
    have h := (List.tail_sublist _).trans (List.dropWhile_sublist (· ≠ '/') (l := output.reverse))
    simpa [removeLastSegment] using h.reverse
  fun_cases turn output remaining with
  | case1 rest => exact (List.sublist_append_right ['.', '.', '/'] rest).append_left output
  | case2 rest => exact (List.sublist_append_right ['.', '/'] rest).append_left output
  | case3 rest => exact (List.sublist_append_right ['/', '.'] ('/' :: rest)).append_left output
  | case4 => exact (List.sublist_append_left ['/'] ['.']).append_left output
  | case5 rest =>
    exact hlast.append (List.sublist_append_right ['/', '.', '.'] ('/' :: rest))
  | case6 => exact hlast.append (List.sublist_append_left ['/'] ['.', '.'])
  | case7 => exact (List.nil_sublist ['.']).append_left output
  | case8 => exact (List.nil_sublist ['.', '.']).append_left output
  | case9 rest =>
    rw [List.append_assoc, List.cons_append, List.takeWhile_append_dropWhile]
  | case10 =>
    rw [List.append_assoc, List.takeWhile_append_dropWhile]

/-- Every turn leaves less to read. -/
theorem turn_shorter (output remaining : Text) (h : remaining ≠ []) :
    (turn output remaining).2.length < remaining.length := by
  fun_cases turn output remaining with
  | case1 rest => simp; omega
  | case2 rest => simp
  | case3 rest => simp
  | case4 => simp
  | case5 rest => simp
  | case6 => simp
  | case7 => simp
  | case8 => simp
  | case9 rest => exact Nat.lt_succ_of_le (List.length_dropWhile_le _ _)
  | case10 =>
    cases remaining with
    | nil => exact absurd rfl h
    | cons c rest =>
      have hc : c ≠ '/' := by
        rintro rfl
        simp_all
      rw [List.dropWhile_cons_of_pos (by simpa using hc)]
      exact Nat.lt_succ_of_le (List.length_dropWhile_le _ _)

theorem loop_sublist {fuel : ℕ} {output remaining result : Text}
    (h : loop fuel output remaining = some result) : result.Sublist (output ++ remaining) := by
  induction fuel generalizing output remaining with
  | zero => cases h
  | succ fuel ih =>
    cases remaining with
    | nil =>
      obtain rfl : output = result := by simpa [loop] using h
      simp
    | cons c rest => exact (ih h).trans (turn_sublist output (c :: rest))

theorem loop_isSome {fuel : ℕ} {output remaining : Text} (h : remaining.length < fuel) :
    (loop fuel output remaining).isSome = true := by
  induction fuel generalizing output remaining with
  | zero => omega
  | succ fuel ih =>
    cases remaining with
    | nil => rfl
    | cons c rest =>
      have hshort := turn_shorter output (c :: rest) (List.cons_ne_nil c rest)
      have hnext : (turn output (c :: rest)).2.length < fuel :=
        lt_of_lt_of_le hshort (Nat.le_of_lt_succ h)
      exact ih hnext

/-- The loop has as many turns as it needs. -/
theorem removeDotSegments_isSome (path : Text) :
    (removeDotSegments (path.length + 1) path).isSome = true :=
  loop_isSome (Nat.lt_succ_self path.length)

theorem removeDotSegments_sublist (path : Text) :
    ((removeDotSegments (path.length + 1) path).getD []).Sublist path := by
  cases h : removeDotSegments (path.length + 1) path with
  | none => simp
  | some result => exact loop_sublist h

/-- The segments of a path in front of their slashes stay in front of slashes. -/
theorem removeDotSegments_render {path : Text} (h : path = [] ∨ path.head? = some '/') :
    ∃ segments, Slashless segments ∧ path = render segments ∧
      (removeDotSegments (path.length + 1) path).getD [] = render (resolve [] segments) := by
  obtain ⟨segments, hslash, rfl⟩ := exists_render h
  refine ⟨segments, hslash, rfl, ?_⟩
  have hempty : Slashless [] := by simp [Slashless]
  have hloop := loop_render hslash hempty _ (Nat.lt_succ_self _)
  exact congrArg (Option.getD · []) hloop

theorem head_render {segments : List Text} {c : Char} (h : (render segments).head? = some c) :
    c = '/' := by
  cases segments with
  | nil => cases h
  | cons segment segments => exact (Option.some.inj h).symm

theorem normalizePath_start {path : Text} (h : path = [] ∨ path.head? = some '/') {c : Char}
    (hc : (normalizePath path).head? = some c) : c = '/' := by
  have hstart : (normalizePercentEncoding (if path.isEmpty then ['/'] else path)).head? =
      some '/' := by
    cases path with
    | nil => rfl
    | cons d rest =>
      obtain rfl : d = '/' := by simpa using h
      rw [List.isEmpty_cons, if_neg Bool.false_ne_true, normalizePercentEncoding_slash]
      rfl
  obtain ⟨segments, -, -, hresult⟩ := removeDotSegments_render (.inr hstart)
  rw [normalizePath, hresult] at hc
  have hprefix := rstrip_initial '/' (render (resolve [] segments))
  cases hstrip : rstrip '/' (render (resolve [] segments)) with
  | nil => simp [hstrip] at hc
  | cons d rest =>
    obtain ⟨tail, htail⟩ := hprefix
    have hhead : (render (resolve [] segments)).head? = some c := by
      rw [← htail, hstrip]
      simpa [hstrip] using hc
    exact head_render hhead

theorem encodedLength_normalizePath (path : Text) :
    encodedLength (normalizePath path) ≤ encodedLength path := by
  cases path with
  | nil => decide
  | cons c rest =>
    rw [normalizePath, List.isEmpty_cons, if_neg Bool.false_ne_true]
    calc _ ≤ encodedLength _ := encodedLength_sublist (rstrip_initial '/' _).sublist
      _ ≤ encodedLength (normalizePercentEncoding (c :: rest)) :=
          encodedLength_sublist (removeDotSegments_sublist _)
      _ ≤ encodedLength (c :: rest) := encodedLength_normalizePercentEncoding _

theorem mem_normalizePath {path : Text} {c : Char} (h : c ∈ normalizePath path) :
    c = '/' ∨ c ∈ path ∨ isUnreserved c = true := by
  rw [normalizePath] at h
  have hmem := (removeDotSegments_sublist _).mem (mem_rstrip h)
  obtain hmem | hmem := mem_normalizePercentEncoding hmem
  · split at hmem
    · exact .inl (List.mem_singleton.mp hmem)
    · exact .inr (.inl hmem)
  · exact .inr (.inr hmem)

/-- Without tracking parameters the query keeps its parts. -/
theorem normalizeQuery_nil (codecs : Codecs) (query : Text) :
    normalizeQuery codecs [] query = normalizePercentEncoding query := by
  cases query with
  | nil => rfl
  | cons c rest => simp [normalizeQuery, joinWith_split]

/-! ## Written URLs -/

/-- The path and the query behind an authority. -/
def restText (path query : Text) : Text :=
  path ++ if query.isEmpty then [] else '?' :: query

theorem urlunsplit_http {scheme netloc path query : Text}
    (hscheme : scheme = "http".toList ∨ scheme = "https".toList)
    (hpath : ∀ c, path.head? = some c → c = '/') :
    urlunsplit { scheme, netloc, path, query, fragment := [] } =
      scheme ++ ':' :: '/' :: '/' :: (netloc ++ restText path query) := by
  have huses : (!scheme.isEmpty && usesNetloc.contains scheme) = true := by
    obtain rfl | rfl := hscheme <;> decide
  have hempty : scheme.isEmpty = false := by
    obtain rfl | rfl := hscheme <;> decide
  have hslash : ¬ (!path.isEmpty && decide (path.take 1 ≠ ['/'])) = true := by
    cases path with
    | nil => simp
    | cons c rest => simp [hpath c rfl]
  have hauthority : (!netloc.isEmpty || (!scheme.isEmpty && usesNetloc.contains scheme) ||
      decide (path.take 2 = ['/', '/'])) = true := by
    rw [huses, Bool.or_true, Bool.true_or]
  unfold urlunsplit restText
  dsimp only
  rw [if_pos hauthority, if_neg hslash, if_pos List.isEmpty_nil, hempty, if_neg Bool.false_ne_true]
  split <;> simp

theorem isRest_restText {path query : Text} (hpath : ∀ c, path.head? = some c → c = '/')
    (hclean : ∀ c ∈ path, isUnsafe c = false) (hquery : ∀ c ∈ query, isUnsafe c = false) :
    IsRest (restText path query) := by
  constructor
  · intro c hc
    cases path with
    | nil =>
      cases query with
      | nil => cases hc
      | cons d rest =>
        obtain rfl : '?' = c := by simpa [restText] using hc
        decide
    | cons d rest =>
      obtain rfl : d = c := by simpa [restText] using hc
      rw [hpath d rfl]
      decide
  · intro c hc
    obtain hc | hc := List.mem_append.mp hc
    · exact hclean c hc
    · split at hc
      · cases hc
      · obtain rfl | hc := List.mem_cons.mp hc
        · decide
        · exact hquery c hc

theorem not_unsafe_of_unreserved {c : Char} (h : isUnreserved c = true) : isUnsafe c = false := by
  rw [Bool.eq_false_iff]
  intro hunsafe
  simp only [isUnsafe, Bool.or_eq_true, decide_eq_true_eq] at hunsafe
  obtain (rfl | rfl) | rfl := hunsafe <;> revert h <;> decide

/-- The rest of a normalized URL. -/
theorem isRest_normalized (codecs : Codecs) {r : SplitResult} (hsplit : IsSplit codecs.tables r)
    (hnetloc : r.netloc ≠ []) :
    IsRest (restText (normalizePath r.path) (normalizeQuery codecs [] r.query)) := by
  apply isRest_restText
  · intro c hc
    exact normalizePath_start (hsplit.path_nil_or_slash hnetloc) hc
  · intro c hc
    obtain rfl | hc | hc := mem_normalizePath hc
    · decide
    · exact (hsplit.path c hc).2.2
    · exact not_unsafe_of_unreserved hc
  · intro c hc
    rw [normalizeQuery_nil] at hc
    obtain hc | hc := mem_normalizePercentEncoding hc
    · exact (hsplit.query c hc).2
    · exact not_unsafe_of_unreserved hc

/-- The rest does not grow. -/
theorem encodedLength_restText_normalized (codecs : Codecs) (scheme netloc rest : Text) :
    encodedLength (restText (normalizePath (splitParts scheme netloc rest).path)
        (normalizeQuery codecs [] (splitParts scheme netloc rest).query)) ≤
      encodedLength rest := by
  have hfragment := congrArg encodedLength (partition_join '#' rest)
  have hquestion := congrArg encodedLength (partition_join '?' (partition '#' rest).1)
  have hpath := encodedLength_normalizePath (partition '?' (partition '#' rest).1).1
  have hquery := encodedLength_normalizePercentEncoding (partition '?' (partition '#' rest).1).2.2
  simp only [encodedLength_append] at hfragment hquestion
  change encodedLength (restText (normalizePath (partition '?' (partition '#' rest).1).1)
    (normalizeQuery codecs [] (partition '?' (partition '#' rest).1).2.2)) ≤ _
  rw [normalizeQuery_nil, restText, encodedLength_append]
  by_cases hfound : (partition '?' (partition '#' rest).1).2.1 = true
  · have hmark : '?'.utf8Size = 1 := rfl
    rw [if_pos hfound, encodedLength_cons, encodedLength_nil, hmark] at hquestion
    split
    · rw [encodedLength_nil]
      omega
    · rw [encodedLength_cons, hmark]
      omega
  · have hnone : (partition '?' (partition '#' rest).1).2.2 = [] := by
      have hmem : '?' ∉ (partition '#' rest).1 := by simpa [partition] using hfound
      rw [partition_of_not_mem hmem]
    rw [hnone, normalizePercentEncoding, if_pos List.isEmpty_nil, encodedLength_nil]
    omega

/-! ## Hosts -/

theorem mem_text {a : Inet.Address} {c : Char} (h : c ∈ a.text) :
    c = '.' ∨ c = ':' ∨ Inet.isGroupChar c = true := by
  cases a with
  | v4 n =>
    obtain h | ⟨part, hpart, hc⟩ := Inet.mem_joinWith h
    · exact .inl (List.mem_singleton.mp h)
    · obtain ⟨k, -, rfl⟩ := List.mem_map.mp hpart
      have hdigit := Inet.forall_mem_toDigits (P := fun c => Inet.isDigit c = true) (by decide)
        Inet.isDigit_digitChar k c hc
      exact .inr (.inr (by rw [Inet.isGroupChar, hdigit, Bool.true_or]))
  | v6 n => exact .inr (Inet.isGroupChar_of_mem_text h)

theorem not_mark_of_group {c : Char} (h : Inet.isGroupChar c = true) :
    c ∉ ['/', '?', '#', '@', '[', ']', ':', '%', '.', '\t', '\r', '\n'] := by
  intro hmem
  simp only [List.mem_cons, List.not_mem_nil, or_false] at hmem
  obtain rfl | rfl | rfl | rfl | rfl | rfl | rfl | rfl | rfl | rfl | rfl | rfl := hmem <;>
    revert h <;> decide

/-- The characters of a group are digits and small letters. -/
theorem lower_of_group {c : Char} (h : Inet.isGroupChar c = true) :
    isAscii c = true ∧ c.isUpper = false := by
  have h9 : '9'.toNat = 57 := rfl
  have hf : 'f'.toNat = 102 := rfl
  have ha : 'a'.toNat = 97 := rfl
  have hA : 'A'.toNat = 65 := rfl
  have hZ : 'Z'.toNat = 90 := rfl
  have hle : ∀ d e : Char, d ≤ e ↔ d.toNat ≤ e.toNat := fun d e => UInt32.le_iff_toNat_le
  have hval : ∀ d e : Char, d.val ≤ e.val ↔ d.toNat ≤ e.toNat := fun d e => UInt32.le_iff_toNat_le
  simp only [Inet.isGroupChar, Inet.isDigit, Bool.or_eq_true, Bool.and_eq_true, decide_eq_true_eq,
    hle] at h
  constructor
  · rw [isAscii, decide_eq_true_eq]
    omega
  · rw [Bool.eq_false_iff]
    simp only [Char.isUpper, ne_eq, decide_eq_true_eq, ge_iff_le, hval]
    omega

theorem lower_of_ascii {c : Char} (h : c.toNat < 128) :
    isAscii c.toLower = true ∧ c.toLower.isUpper = false := by
  refine ⟨?_, Char.isUpper_toLower_eq_false c⟩
  by_cases hc : c.isUpper = true
  · have hlower : c.toLower.isLower = true := by
      rw [Char.isLower_toLower_eq_isAlpha, Char.isAlpha, hc, Bool.true_or]
    have hz : 'z'.toNat = 122 := rfl
    have hval : ∀ d e : Char, d.val ≤ e.val ↔ d.toNat ≤ e.toNat :=
      fun d e => UInt32.le_iff_toNat_le
    simp only [Char.isLower, Bool.and_eq_true, decide_eq_true_eq, hval] at hlower
    rw [isAscii, decide_eq_true_eq]
    omega
  · rw [Char.toLower_eq_of_not_isUpper hc, isAscii, decide_eq_true_eq]
    exact h

theorem colon_of_parse6 {s : Text} {n : Fin (2 ^ 128)} (h : Inet.parse6 s = some n) : ':' ∈ s := by
  by_contra hcolon
  simp [Inet.parse6, Inet.parseGroups, Inet.splitGroups, split_eq_singleton hcolon] at h

/-- A scope id comes from the text, which then has a colon. -/
theorem scopeId_of_ipAddress {s scope : Text} {a : ScopedAddress} (h : ipAddress s = some a)
    (hscope : a.scopeId = some scope) : ':' ∈ s ∧ ∀ c ∈ scope, c ∈ s := by
  unfold ipAddress at h
  split at h
  · obtain rfl := Option.some.inj h
    cases hscope
  · dsimp only at h
    split at h
    · cases h
    · obtain ⟨n, hn, rfl⟩ := Option.map_eq_some_iff.mp h
      refine ⟨mem_of_mem_partition (.inl (colon_of_parse6 hn)), ?_⟩
      intro c hc
      simp only [Option.ite_none_right_eq_some, Option.some.injEq] at hscope
      exact mem_of_mem_partition (.inr (hscope.2 ▸ hc))

/-- Where a normalized host comes from. -/
theorem normalizedHost_cases {codecs : Codecs} {host result : Text}
    (h : normalizedHost codecs host = some result) :
    (∃ a, ipAddress (codecs.lower (rstrip '.' host)) = some a ∧ result = a.compressed) ∨
      ∃ bytes name, encodeIdna codecs (codecs.lower (rstrip '.' host)) = some bytes ∧
        decodeAscii bytes = some name ∧ result = name.map Char.toLower := by
  unfold normalizedHost at h
  dsimp only at h
  split at h
  · cases h
  · split at h
    · next a ha => exact .inl ⟨a, ha, (Option.some.inj h).symm⟩
    · obtain ⟨name, hname, rfl⟩ := Option.map_eq_some_iff.mp h
      obtain ⟨bytes, hbytes, hname⟩ := Option.bind_eq_some_iff.mp hname
      exact .inr ⟨bytes, name, hbytes, hname, rfl⟩

/-- In front of a scope id a normalized host is in lower case. -/
theorem lower_of_normalizedHost {codecs : Codecs} {host result : Text}
    (h : normalizedHost codecs host = some result) :
    ∀ c ∈ (partition '%' result).1, isAscii c = true ∧ c.isUpper = false := by
  obtain ⟨a, -, rfl⟩ | ⟨bytes, name, -, hname, rfl⟩ := normalizedHost_cases h
  · have htext : (partition '%' a.compressed).1 = a.address.text := by
      have hpercent : '%' ∉ a.address.text := by
        intro hmem
        obtain hc | hc | hc := mem_text hmem
        · cases hc
        · cases hc
        · exact not_mark_of_group hc (by decide)
      unfold ScopedAddress.compressed
      split
      · rw [partition_append hpercent]
      · rw [partition_of_not_mem hpercent]
    intro c hc
    rw [htext] at hc
    obtain rfl | rfl | hc := mem_text hc
    · decide
    · decide
    · exact lower_of_group hc
  · intro c hc
    obtain ⟨d, hd, rfl⟩ := List.mem_map.mp (mem_of_mem_partition (.inl hc))
    exact lower_of_ascii (isAscii_of_decodeAscii hname d hd)

/-! ## What Python documents -/

/-- The characters that an encoded host name has only if the host has them. -/
def guarded : List Char := ['/', '?', '#', '@', ':', '\t', '\r', '\n']

/-- What the documentation says of the tables. -/
structure Documented (codecs : Codecs) : Prop where
  lower_ascii : ∀ s, s.all isAscii = true → codecs.lower s = s.map Char.toLower
  /-- `str.lower` makes letters. -/
  lower_mem : ∀ s, ∀ c ∈ codecs.lower s, isAscii c = true → c.isAlpha = false → c ∈ s
  /-- NFKC leaves ASCII text at the end alone. -/
  nfkc_append : ∀ s t, t.all isAscii = true → codecs.nfkc (s ++ t) = codecs.nfkc s ++ t
  /-- `urlsplit` raises for an authority in which NFKC, as the codec uses it, brings out
  one of `/?#@:`; no tab and no line end comes out anywhere. -/
  idna_mem : ∀ url r host bytes name, urlsplit codecs.tables url [] = some r →
    r.hostname codecs.tables = some host →
    encodeIdna codecs (codecs.lower (rstrip '.' host)) = some bytes →
    decodeAscii bytes = some name →
    ∀ c ∈ name, c ∈ guarded → c ∈ codecs.lower (rstrip '.' host)

variable {codecs : Codecs}

/-- The host a URL names, as `parsed.hostname or ""`. -/
def hostText (codecs : Codecs) (r : SplitResult) : Text := (r.hostname codecs.tables).getD []

theorem hostText_eq (codecs : Codecs) (r : SplitResult) :
    hostText codecs r = codecs.lower (partition '%' r.hostinfo.1).1 ++
        (if (partition '%' r.hostinfo.1).2.1 then ['%'] else []) ++
        (partition '%' r.hostinfo.1).2.2 ∨ r.hostinfo.1 = [] ∧ hostText codecs r = [] := by
  by_cases hempty : r.hostinfo.1 = []
  · refine .inr ⟨hempty, ?_⟩
    simp [hostText, SplitResult.hostname, hempty]
  · left
    simp [hostText, SplitResult.hostname, hempty, Codecs.tables]

/-- What is not a letter comes from the host as written. -/
theorem mem_hostText (hdoc : Documented codecs) {r : SplitResult} {c : Char}
    (h : c ∈ hostText codecs r) (hascii : isAscii c = true) (hletter : c.isAlpha = false) :
    c ∈ r.hostinfo.1 := by
  obtain heq | ⟨-, heq⟩ := hostText_eq codecs r
  · rw [heq, List.mem_append, List.mem_append] at h
    obtain (h | h) | h := h
    · exact mem_of_mem_partition (.inl (hdoc.lower_mem _ c h hascii hletter))
    · split at h
      · next hfound =>
        rw [List.mem_singleton.mp h]
        simpa [partition] using hfound
      · cases h
    · exact mem_of_mem_partition (.inr h)
  · rw [heq] at h
    cases h

/-- A host in lower case in front of its scope id is read as it is written. -/
theorem hostText_of_lower (hdoc : Documented codecs) {r : SplitResult} {host : Text}
    (hhost : r.hostinfo.1 = host)
    (hlower : ∀ c ∈ (partition '%' host).1, isAscii c = true ∧ c.isUpper = false) :
    hostText codecs r = host := by
  obtain heq | ⟨hempty, heq⟩ := hostText_eq codecs r
  · rw [heq, hhost, hdoc.lower_ascii _ (List.all_eq_true.mpr fun c hc => (hlower c hc).1)]
    have hid : (partition '%' host).1.map Char.toLower = (partition '%' host).1 := by
      refine (List.map_congr_left fun c hc => ?_).trans (List.map_id _)
      exact Char.toLower_eq_of_not_isUpper (by simp [(hlower c hc).2])
    rw [hid, partition_join]
  · rw [heq, ← hhost, hempty]

theorem isAscii_hostText (hdoc : Documented codecs) {r : SplitResult}
    (h : ∀ c ∈ r.hostinfo.1, isAscii c = true) : ∀ c ∈ hostText codecs r, isAscii c = true := by
  obtain heq | ⟨-, heq⟩ := hostText_eq codecs r
  · have hfront : (partition '%' r.hostinfo.1).1.all isAscii = true :=
      List.all_eq_true.mpr fun c hc => h c (mem_of_mem_partition (.inl hc))
    rw [heq, hdoc.lower_ascii _ hfront]
    intro c hc
    rw [List.mem_append, List.mem_append] at hc
    obtain (hc | hc) | hc := hc
    · obtain ⟨d, hd, rfl⟩ := List.mem_map.mp hc
      exact (lower_of_ascii (of_decide_eq_true (List.all_eq_true.mp hfront d hd))).1
    · split at hc
      · rw [List.mem_singleton.mp hc]
        decide
      · cases hc
    · exact h c (mem_of_mem_partition (.inr hc))
  · rw [heq]
    intro c hc
    cases hc

/-- The codec leaves ASCII alone. -/
theorem encodeIdna_ascii {host name : Text} {bytes : Artifacts.Bytes} (hhost : host.all isAscii = true)
    (hbytes : encodeIdna codecs host = some bytes) (hname : decodeAscii bytes = some name) :
    name = host := by
  rw [encodeIdna, if_pos hhost] at hbytes
  simp only [Option.ite_none_right_eq_some, Option.some.injEq] at hbytes
  obtain ⟨-, rfl⟩ := hbytes
  have hdecode : decodeAscii (encodeAscii host) = some host :=
    decodeAscii_encodeAscii fun c hc => of_decide_eq_true (List.all_eq_true.mp hhost c hc)
  exact Option.some.inj (hname.symm.trans hdecode)

theorem normalizedHost_nil (hdoc : Documented codecs) : normalizedHost codecs [] = none := by
  have hlower : codecs.lower (rstrip '.' []) = [] := hdoc.lower_ascii [] rfl
  rw [normalizedHost, hlower]
  rfl

/-- A mark of the host in lower case is one of the host as written. -/
theorem mem_host_of_mem_lower (hdoc : Documented codecs) {r : SplitResult} {c : Char}
    (h : c ∈ codecs.lower (rstrip '.' (hostText codecs r))) (hascii : isAscii c = true)
    (hletter : c.isAlpha = false) : c ∈ r.hostinfo.1 :=
  mem_hostText hdoc (mem_rstrip (hdoc.lower_mem _ c h hascii hletter)) hascii hletter

/-- A normalized host has no character that ends an authority or that is removed. -/
theorem normalizedHost_clean (hdoc : Documented codecs) {url : Text} {r : SplitResult}
    (hsplit : urlsplit codecs.tables url [] = some r) {host : Text}
    (hhost : normalizedHost codecs (hostText codecs r) = some host) {c : Char} (hc : c ∈ host) :
    c ∉ ['/', '?', '#', '@', '\t', '\r', '\n'] := by
  intro hmark
  have hguarded : c ∈ guarded ∧ isAscii c = true ∧ c.isAlpha = false ∧ c ≠ ':' ∧
      Inet.isGroupChar c = false ∧ c ≠ '.' ∧ c ≠ '%' := by
    simp only [List.mem_cons, List.not_mem_nil, or_false] at hmark
    obtain rfl | rfl | rfl | rfl | rfl | rfl | rfl := hmark <;> decide
  obtain ⟨hguard, hascii, hletter, hcolon, hgroup, hdot, hpercent⟩ := hguarded
  have hlowered : c ∉ codecs.lower (rstrip '.' (hostText codecs r)) := by
    intro hmem
    have hraw := mem_host_of_mem_lower hdoc hmem hascii hletter
    obtain ⟨hnetloc, hat⟩ := SplitResult.mem_of_mem_host hraw
    obtain ⟨hend, hunsafe⟩ := (isSplit_urlsplit hsplit).netloc c hnetloc
    simp only [List.mem_cons, List.not_mem_nil, or_false] at hmark
    obtain rfl | rfl | rfl | rfl | rfl | rfl | rfl := hmark
    · exact hend (by decide)
    · exact hend (by decide)
    · exact hend (by decide)
    · exact hat rfl
    all_goals cases hunsafe
  obtain ⟨a, ha, rfl⟩ | ⟨bytes, name, hbytes, hname, rfl⟩ := normalizedHost_cases hhost
  · have htext : c ∉ a.address.text := by
      intro hmem
      obtain rfl | rfl | hc := mem_text hmem
      · exact hdot rfl
      · exact hcolon rfl
      · exact absurd hc (by simp [hgroup])
    unfold ScopedAddress.compressed at hc
    split at hc
    · next scope hscope =>
      obtain hc | hc := List.mem_append.mp hc
      · exact htext hc
      · obtain rfl | hc := List.mem_cons.mp hc
        · exact hpercent rfl
        · exact hlowered ((scopeId_of_ipAddress ha hscope).2 c hc)
    · exact htext hc
  · obtain ⟨d, hd, rfl⟩ := List.mem_map.mp hc
    have hsame : d.toLower = d := by
      apply Char.toLower_eq_of_not_isUpper
      intro hupper
      simp [Char.isAlpha, hupper] at hletter
    rw [hsame] at hguard hlowered
    cases hname' : r.hostname codecs.tables with
    | none =>
      rw [hostText, hname', Option.getD_none, normalizedHost_nil hdoc] at hhost
      cases hhost
    | some host =>
      rw [hostText, hname', Option.getD_some] at hbytes hlowered
      exact hlowered (hdoc.idna_mem url r host bytes name hsplit hname' hbytes hname d hd hguard)

/-- An address with a scope id has colons, so it was written in brackets. -/
theorem close_not_mem_compressed (hdoc : Documented codecs) {r : SplitResult} {a : ScopedAddress}
    (ha : ipAddress (codecs.lower (rstrip '.' (hostText codecs r))) = some a) :
    ']' ∉ a.compressed := by
  have htext : ']' ∉ a.address.text := by
    intro hmem
    obtain hc | hc | hc := mem_text hmem
    · cases hc
    · cases hc
    · exact not_mark_of_group hc (by decide)
  intro hclose
  unfold ScopedAddress.compressed at hclose
  split at hclose
  · next scope hscope =>
    obtain ⟨hcolon, hfrom⟩ := scopeId_of_ipAddress ha hscope
    have hmem : ']' ∈ scope := by simpa [htext] using hclose
    obtain ⟨-, hplain⟩ | hplain := r.host_bracketed_or_plain
    · exact hplain (mem_host_of_mem_lower hdoc (hfrom _ hmem) (by decide) (by decide))
    · exact hplain (mem_host_of_mem_lower hdoc hcolon (by decide) (by decide))
  · exact htext hclose

/-- Only an encoded name has a closing bracket. -/
theorem isAscii_of_close (hdoc : Documented codecs) {r : SplitResult} {host : Text}
    (hhost : normalizedHost codecs (hostText codecs r) = some host) (hclose : ']' ∈ host) :
    ∀ c ∈ host, isAscii c = true := by
  obtain ⟨a, ha, rfl⟩ | ⟨bytes, name, -, hname, rfl⟩ := normalizedHost_cases hhost
  · exact absurd hclose (close_not_mem_compressed hdoc ha)
  · intro c hc
    obtain ⟨d, hd, rfl⟩ := List.mem_map.mp hc
    exact (lower_of_ascii (isAscii_of_decodeAscii hname d hd)).1

/-- A host written in ASCII has the closing brackets it was written with. -/
theorem close_mem_host (hdoc : Documented codecs) {r : SplitResult} {host : Text}
    (hhost : normalizedHost codecs (hostText codecs r) = some host)
    (hascii : ∀ c ∈ r.hostinfo.1, isAscii c = true) (hclose : ']' ∈ host) :
    ']' ∈ r.hostinfo.1 := by
  have htext := isAscii_hostText hdoc hascii
  have hstrip : (rstrip '.' (hostText codecs r)).all isAscii = true :=
    List.all_eq_true.mpr fun c hc => htext c (mem_rstrip hc)
  obtain ⟨a, ha, rfl⟩ | ⟨bytes, name, hbytes, hname, rfl⟩ := normalizedHost_cases hhost
  · exact absurd hclose (close_not_mem_compressed hdoc ha)
  · have hlower : (codecs.lower (rstrip '.' (hostText codecs r))).all isAscii = true := by
      rw [hdoc.lower_ascii _ hstrip, List.all_eq_true]
      intro c hc
      obtain ⟨d, hd, rfl⟩ := List.mem_map.mp hc
      exact (lower_of_ascii (of_decide_eq_true (List.all_eq_true.mp hstrip d hd))).1
    rw [encodeIdna_ascii hlower hbytes hname] at hclose
    obtain ⟨d, hd, hdclose⟩ := List.mem_map.mp hclose
    have hsame : d.toLower = d := by
      apply Char.toLower_eq_of_not_isUpper
      intro hupper
      have halpha : d.toLower.isAlpha = true := by
        rw [Char.isAlpha_toLower_eq_isAlpha, Char.isAlpha, hupper, Bool.true_or]
      rw [hdclose] at halpha
      cases halpha
    rw [← hdclose, hsame]
    rw [hsame] at hdclose
    exact mem_host_of_mem_lower hdoc hd (hdclose ▸ by decide) (hdclose ▸ by decide)

/-! ## Authorities -/

/-- The digits behind the host of an authority. -/
def portText (scheme : Text) (port : Option ℕ) : Option Text :=
  match port with
  | some n => if some n = defaultPort scheme then none else some (Nat.toDigits 10 n)
  | none => none

theorem authority_eq (scheme host : Text) (port : Option ℕ) :
    authority scheme host port = serializedHost host ++ portTail (portText scheme port) := by
  cases port with
  | none => simp [authority, portText, portTail]
  | some n =>
    simp only [authority, portText]
    split
    · simp [portTail]
    · rfl

theorem portText_cases {scheme : Text} {port : Option ℕ} {digits : Text}
    (h : portText scheme port = some digits) :
    ∃ n, port = some n ∧ some n ≠ defaultPort scheme ∧ digits = Nat.toDigits 10 n := by
  cases port with
  | none => cases h
  | some n =>
    simp only [portText, Option.ite_none_left_eq_some, Option.some.injEq] at h
    exact ⟨n, rfl, h.1, h.2.symm⟩

theorem mem_portTail {scheme : Text} {port : Option ℕ} {c : Char}
    (h : c ∈ portTail (portText scheme port)) : c = ':' ∨ c.isDigit = true := by
  cases hport : portText scheme port with
  | none => simp [hport, portTail] at h
  | some digits =>
    obtain ⟨n, -, -, rfl⟩ := portText_cases hport
    rw [hport, portTail, List.mem_cons] at h
    exact h.imp_right (Nat.isDigit_of_mem_toDigits (by decide) (by decide))

theorem mem_authority {scheme host : Text} {port : Option ℕ} {c : Char}
    (h : c ∈ authority scheme host port) :
    c ∈ host ∨ c = '[' ∨ c = ']' ∨ c = ':' ∨ c.isDigit = true := by
  rw [authority_eq, List.mem_append] at h
  obtain h | h := h
  · unfold serializedHost at h
    split at h
    · simp only [List.mem_append, List.mem_cons, List.not_mem_nil, or_false] at h
      obtain (h | h) | h := h
      · exact .inr (.inl h)
      · exact .inl h
      · exact .inr (.inr (.inl h))
    · exact .inl h
  · exact .inr (.inr (.inr (mem_portTail h)))

/-- An authority with such a host ends where it was written to end. -/
theorem isNetloc_authority {scheme host : Text} {port : Option ℕ}
    (hclean : ∀ c ∈ host, c ∉ ['/', '?', '#', '@', '\t', '\r', '\n']) :
    IsNetloc (authority scheme host port) ∧ '@' ∉ authority scheme host port := by
  have hmarks : ∀ c ∈ authority scheme host port,
      c ∉ ['/', '?', '#', '@', '\t', '\r', '\n'] := by
    intro c hc
    obtain hc | rfl | rfl | rfl | hc := mem_authority hc
    · exact hclean c hc
    · decide
    · decide
    · decide
    · intro hmem
      simp only [List.mem_cons, List.not_mem_nil, or_false] at hmem
      obtain rfl | rfl | rfl | rfl | rfl | rfl | rfl := hmem <;> cases hc
  refine ⟨fun c hc => ⟨?_, ?_⟩, fun hat => hmarks '@' hat (by decide)⟩
  · have := hmarks c hc
    simp only [authorityEnds, List.mem_cons, List.not_mem_nil, or_false, not_or] at this ⊢
    tauto
  · have := hmarks c hc
    simp only [List.mem_cons, List.not_mem_nil, or_false, not_or] at this
    simp [isUnsafe, this]

/-- The host is a name or an address whose brackets were written with it. -/
theorem hostinfo_authority {r : SplitResult} {scheme host : Text} {port : Option ℕ}
    (hnetloc : r.netloc = authority scheme host port) (hat : '@' ∉ r.netloc)
    (haccept : acceptsNetloc codecs.tables r.netloc = true) (hclose : ']' ∉ host) :
    r.hostinfo = (host, portText scheme port) := by
  have hdigits : ∀ digits ∈ portText scheme port, digits ≠ [] := by
    rintro digits hdigits
    obtain ⟨n, -, -, rfl⟩ := portText_cases hdigits
    exact Nat.toDigits_ne_nil
  rw [authority_eq] at hnetloc
  by_cases hcolon : ':' ∈ host
  · apply SplitResult.hostinfo_bracketed _ hat hclose hdigits
    rw [hnetloc, serializedHost, if_pos (by simpa using hcolon)]
    simp
  · rw [serializedHost, if_neg (by simpa using hcolon)] at hnetloc
    have hnoclose : ']' ∉ r.netloc := by
      rw [hnetloc, List.mem_append]
      rintro (h | h)
      · exact hclose h
      · obtain h | h := mem_portTail h <;> cases h
    have hnoopen : '[' ∉ r.netloc := by
      intro hopen
      simp [acceptsNetloc, hopen, hnoclose] at haccept
    exact SplitResult.hostinfo_plain hnetloc hat hnoopen hcolon hdigits

theorem port_of_digits {r : SplitResult} {n : ℕ} (h : r.hostinfo.2 = some (Nat.toDigits 10 n))
    (hn : n ≤ 65535) : r.port = some (some n) := by
  have hvalue : (Nat.toDigits 10 n).foldl (fun n c => 10 * n + (c.toNat - '0'.toNat)) 0 = n := by
    rw [← Nat.ofDigitChars_eq_foldl]
    exact Nat.ofDigitChars_ten_toDigits
  have hall : (Nat.toDigits 10 n).all Char.isDigit = true :=
    List.all_eq_true.mpr fun c hc => Nat.isDigit_of_mem_toDigits (by decide) (by decide) hc
  rw [SplitResult.port, h]
  simp only [hvalue, hall, Bool.true_and, decide_eq_true hn, if_true]

theorem le_of_port {r : SplitResult} {n : ℕ} (h : r.port = some (some n)) : n ≤ 65535 := by
  unfold SplitResult.port at h
  split at h
  · cases h
  · dsimp only at h
    split at h
    · next hcond =>
      simp only [Bool.and_eq_true, decide_eq_true_eq] at hcond
      have hn := Option.some.inj (Option.some.inj h)
      exact hn ▸ hcond.2
    · cases h

end CrawlTrove.Normalize
