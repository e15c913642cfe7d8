import CrawlTrove.Web.Url

/-!
# Splitting written URLs

What `urlsplit` makes of a URL that was put together from a scheme, an authority and the
rest, and what it says of the parts of any URL.
-/

namespace CrawlTrove.Web

/-! ## Partitions -/

theorem takeWhile_ne {c : Char} {s : Text} (h : c ∉ s) : s.takeWhile (· ≠ c) = s := by
  rw [List.takeWhile_eq_self_iff]
  intro d hd
  exact decide_eq_true fun hdc : d = c => h (hdc ▸ hd)

theorem dropWhile_ne {c : Char} {s : Text} (h : c ∉ s) : s.dropWhile (· ≠ c) = [] := by
  rw [List.dropWhile_eq_nil_iff]
  intro d hd
  exact decide_eq_true fun hdc : d = c => h (hdc ▸ hd)

theorem partition_of_not_mem {c : Char} {s : Text} (h : c ∉ s) :
    partition c s = (s, false, []) := by
  simp only [partition, takeWhile_ne h, dropWhile_ne h]
  simpa using h

theorem partition_append {c : Char} {s : Text} (h : c ∉ s) (rest : Text) :
    partition c (s ++ c :: rest) = (s, true, rest) := by
  have hs : ∀ d ∈ s, decide (d ≠ c) = true := by
    intro d hd
    exact decide_eq_true fun hdc : d = c => h (hdc ▸ hd)
  simp only [partition]
  rw [List.takeWhile_append_of_pos hs, List.dropWhile_append_of_pos hs]
  simp

theorem rpartition_of_not_mem {c : Char} {s : Text} (h : c ∉ s) :
    rpartition c s = ([], false, s) := by
  rw [rpartition, partition_of_not_mem (by simpa using h)]
  simp

/-- What is in front of the separator has none. -/
theorem not_mem_partition (c : Char) (s : Text) : c ∉ (partition c s).1 := by
  intro h
  simpa using List.mem_takeWhile_imp h

/-- The text again, with the separator if it was found. -/
theorem partition_join (c : Char) (s : Text) :
    (partition c s).1 ++ (if (partition c s).2.1 then [c] else []) ++ (partition c s).2.2 = s := by
  by_cases h : c ∈ s
  · obtain ⟨front, rest, rfl, hfront⟩ := List.eq_append_cons_of_mem h
    rw [partition_append hfront]
    simp
  · rw [partition_of_not_mem h]
    simp

theorem mem_of_mem_partition {c d : Char} {s : Text}
    (h : d ∈ (partition c s).1 ∨ d ∈ (partition c s).2.2) : d ∈ s := by
  rw [← partition_join c s]
  simp only [List.mem_append]
  obtain h | h := h
  · exact .inl (.inl h)
  · exact .inr h

theorem mem_of_mem_rpartition {c d : Char} {s : Text} (h : d ∈ (rpartition c s).2.2) : d ∈ s := by
  simp only [rpartition, List.mem_reverse] at h
  exact List.mem_reverse.mp (mem_of_mem_partition (.inl h))

theorem not_mem_rpartition (c : Char) (s : Text) : c ∉ (rpartition c s).2.2 := by
  simp only [rpartition, List.mem_reverse]
  exact not_mem_partition c s.reverse

/-! ## Schemes and authorities -/

/-- A scheme as `urlsplit` returns it. -/
structure IsScheme (scheme : Text) : Prop where
  ne_nil : scheme ≠ []
  head_alpha : ∀ c, scheme.head? = some c → c.isAlpha = true
  chars : ∀ c ∈ scheme, isSchemeChar c = true
  lower : scheme.map Char.toLower = scheme

/-- The characters that end the authority. -/
def authorityEnds : List Char := ['/', '?', '#']

/-- An authority without its ends and without what is removed from URLs. -/
def IsNetloc (netloc : Text) : Prop := ∀ c ∈ netloc, c ∉ authorityEnds ∧ isUnsafe c = false

/-- The rest behind an authority. -/
structure IsRest (rest : Text) : Prop where
  head_end : ∀ c, rest.head? = some c → c ∈ authorityEnds
  clean : ∀ c ∈ rest, isUnsafe c = false

variable (tables : Tables)

/-- `urlsplit` raises nothing about the authority. -/
def acceptsNetloc (netloc : Text) : Bool :=
  netloc.contains '[' == netloc.contains ']' &&
    (!netloc.contains '[' ||
      checkBracketedHost tables (partition ']' (partition '[' netloc).2.2).1) &&
    checkNetloc tables netloc

/-- The parts of a URL behind its authority. -/
def splitParts (scheme netloc rest : Text) : SplitResult where
  scheme := scheme
  netloc := netloc
  path := (partition '?' (partition '#' rest).1).1
  query := (partition '?' (partition '#' rest).1).2.2
  fragment := (partition '#' rest).2.2

variable {tables}

theorem splitRest_eq (scheme netloc url : Text) :
    splitRest tables scheme netloc url =
      if checkNetloc tables netloc then some (splitParts scheme netloc url) else none := rfl

theorem splitNetloc_eq (scheme netloc rest : Text) :
    (if (netloc.contains '[' != netloc.contains ']') = true then none
      else if (netloc.contains '[' &&
          !checkBracketedHost tables (partition ']' (partition '[' netloc).2.2).1) = true then none
      else splitRest tables scheme netloc rest) =
    if acceptsNetloc tables netloc then some (splitParts scheme netloc rest) else none := by
  rw [splitRest_eq, acceptsNetloc]
  cases netloc.contains '[' <;> cases netloc.contains ']' <;>
    cases checkBracketedHost tables (partition ']' (partition '[' netloc).2.2).1 <;> simp

theorem colon_not_scheme {c : Char} (h : isSchemeChar c = true) : c ≠ ':' := by
  rintro rfl
  simp [isSchemeChar, Char.isAlphanum] at h

theorem IsScheme.colon_not_mem {scheme : Text} (h : IsScheme scheme) : ':' ∉ scheme :=
  fun hmem => colon_not_scheme (h.chars _ hmem) rfl

theorem not_unsafe_of_scheme {c : Char} (h : isSchemeChar c = true) : isUnsafe c = false := by
  rw [Bool.eq_false_iff]
  intro hunsafe
  simp only [isUnsafe, Bool.or_eq_true, decide_eq_true_eq] at hunsafe
  obtain (rfl | rfl) | rfl := hunsafe <;> revert h <;> decide

theorem not_control_of_alpha {c : Char} (h : c.isAlpha = true) :
    ¬ isControlOrSpace c = true := by
  simp only [Char.isAlpha, Char.isUpper, Char.isLower, Bool.or_eq_true, Bool.and_eq_true,
    decide_eq_true_eq, ge_iff_le, UInt32.le_iff_toNat_le] at h
  simp only [isControlOrSpace, decide_eq_true_eq]
  have htoNat : c.toNat = c.val.toNat := rfl
  have hA : 'A'.val.toNat = 65 := rfl
  have ha : 'a'.val.toNat = 97 := rfl
  omega

theorem splitScheme_written {scheme : Text} (h : IsScheme scheme) (default rest : Text) :
    splitScheme default (scheme ++ ':' :: rest) = (scheme, rest) := by
  rw [splitScheme, partition_append h.colon_not_mem]
  obtain ⟨hne, halpha, hchars, hlower⟩ := h
  cases scheme with
  | nil => exact absurd rfl hne
  | cons c scheme =>
    have hall : (c :: scheme).all isSchemeChar = true := List.all_eq_true.mpr hchars
    simp only [halpha c rfl, hall, Bool.and_self, if_true, hlower]

theorem takeWhile_netloc {netloc rest : Text} (hnetloc : IsNetloc netloc) (hrest : IsRest rest) :
    (netloc ++ rest).takeWhile (fun c => decide (c ∉ authorityEnds)) = netloc := by
  rw [List.takeWhile_append_of_pos fun c hc => decide_eq_true (hnetloc c hc).1]
  cases rest with
  | nil => simp
  | cons c rest =>
    have hc := hrest.head_end c rfl
    rw [List.takeWhile_cons_of_neg (by simpa using hc), List.append_nil]

/-- Nothing in front of a scheme is removed. -/
theorem cleaned_written {scheme : Text} (h : IsScheme scheme) (rest : Text) :
    ((scheme ++ rest).dropWhile isControlOrSpace).filter (!isUnsafe ·) =
      scheme ++ rest.filter (!isUnsafe ·) := by
  have hstart : (scheme ++ rest).dropWhile isControlOrSpace = scheme ++ rest := by
    cases hs : scheme with
    | nil => exact absurd hs h.ne_nil
    | cons c scheme =>
      have halpha := h.head_alpha c (by rw [hs]; rfl)
      rw [List.cons_append, List.dropWhile_cons_of_neg (not_control_of_alpha halpha)]
  have hscheme : scheme.filter (!isUnsafe ·) = scheme := by
    rw [List.filter_eq_self]
    intro c hc
    rw [Bool.not_eq_true']
    exact not_unsafe_of_scheme (h.chars c hc)
  rw [hstart, List.filter_append, hscheme]

/-- A URL that is put together is split into what it was made of. -/
theorem urlsplit_written {scheme netloc rest : Text} (hscheme : IsScheme scheme)
    (hnetloc : IsNetloc netloc) (hrest : IsRest rest) :
    urlsplit tables (scheme ++ ':' :: '/' :: '/' :: (netloc ++ rest)) [] =
      if acceptsNetloc tables netloc then some (splitParts scheme netloc rest) else none := by
  have hclean : (':' :: '/' :: '/' :: (netloc ++ rest)).filter (!isUnsafe ·) =
      ':' :: '/' :: '/' :: (netloc ++ rest) := by
    rw [List.filter_eq_self]
    intro c hc
    simp only [List.mem_append, List.mem_cons] at hc
    rw [Bool.not_eq_true']
    obtain rfl | rfl | rfl | hc | hc := hc
    · decide
    · decide
    · decide
    · exact (hnetloc c hc).2
    · exact hrest.clean c hc
  have hdrop : (netloc ++ rest).drop netloc.length = rest := List.drop_left
  unfold urlsplit
  rw [cleaned_written hscheme, hclean]
  simp only [splitScheme_written hscheme]
  rw [show (fun c => decide (c ∉ ['/', '?', '#'])) = fun c => decide (c ∉ authorityEnds) from rfl,
    takeWhile_netloc hnetloc hrest, hdrop, splitNetloc_eq]

/-- The scheme is read back, whatever follows. -/
theorem scheme_urlsplit {scheme rest : Text} {r : SplitResult} (hscheme : IsScheme scheme)
    (h : urlsplit tables (scheme ++ ':' :: rest) [] = some r) : r.scheme = scheme := by
  unfold urlsplit at h
  rw [cleaned_written hscheme, List.filter_cons_of_pos (by decide)] at h
  simp only [splitScheme_written hscheme] at h
  split at h
  · rw [splitNetloc_eq, Option.ite_none_right_eq_some, Option.some.injEq] at h
    exact h.2 ▸ rfl
  · rw [splitRest_eq, Option.ite_none_right_eq_some, Option.some.injEq] at h
    exact h.2 ▸ rfl

/-! ## The parts of any URL -/

/-- What holds of every result of `urlsplit`. -/
structure IsSplit (tables : Tables) (r : SplitResult) : Prop where
  scheme : r.scheme = [] ∨ IsScheme r.scheme
  netloc : IsNetloc r.netloc
  accepted : r.netloc ≠ [] → acceptsNetloc tables r.netloc = true
  path : ∀ c ∈ r.path, c ≠ '?' ∧ c ≠ '#' ∧ isUnsafe c = false
  path_start : r.netloc ≠ [] → ∀ c, r.path.head? = some c → c = '/'
  query : ∀ c ∈ r.query, c ≠ '#' ∧ isUnsafe c = false

theorem isSchemeChar_toLower {c : Char} (h : isSchemeChar c = true) :
    isSchemeChar c.toLower = true := by
  by_cases hc : c.isAlpha = true
  · simp [isSchemeChar, Char.isAlphanum, hc]
  · have hupper : ¬ c.isUpper = true := fun hu => hc (by simp [Char.isAlpha, hu])
    rwa [Char.toLower_eq_of_not_isUpper hupper]

theorem isScheme_splitScheme (url : Text) :
    (splitScheme [] url).1 = [] ∨ IsScheme (splitScheme [] url).1 := by
  unfold splitScheme
  cases hfront : (partition ':' url).1 with
  | nil => exact .inl (by simp only [hfront])
  | cons c front =>
    simp only [hfront]
    split
    · next hcond =>
      simp only [Bool.and_eq_true, List.all_eq_true] at hcond
      obtain ⟨⟨-, halpha⟩, hchars⟩ := hcond
      refine .inr ⟨by simp, ?_, ?_, ?_⟩
      · intro d hd
        obtain rfl : c.toLower = d := by simpa using hd
        simpa using halpha
      · intro d hd
        obtain ⟨e, he, rfl⟩ := List.mem_map.mp hd
        exact isSchemeChar_toLower (hchars e he)
      · simp
    · exact .inl rfl

theorem mem_splitScheme {url : Text} {c : Char} (h : c ∈ (splitScheme [] url).2) : c ∈ url := by
  unfold splitScheme at h
  cases hfront : (partition ':' url).1 with
  | nil => simpa [hfront] using h
  | cons d front =>
    simp only [hfront] at h
    split at h
    · exact mem_of_mem_partition (.inr h)
    · exact h

theorem mem_splitParts_front {rest : Text} {c : Char}
    (h : c ∈ (partition '?' (partition '#' rest).1).1 ∨
      c ∈ (partition '?' (partition '#' rest).1).2.2) : c ≠ '#' ∧ c ∈ rest := by
  have hmem : c ∈ (partition '#' rest).1 := mem_of_mem_partition h
  refine ⟨?_, mem_of_mem_partition (.inl hmem)⟩
  rintro rfl
  exact not_mem_partition '#' rest hmem

theorem isSplit_parts {scheme netloc rest : Text} (hscheme : scheme = [] ∨ IsScheme scheme)
    (hnetloc : IsNetloc netloc) (hrest : ∀ c ∈ rest, isUnsafe c = false)
    (hstart : netloc ≠ [] → ∀ c, rest.head? = some c → c ∈ authorityEnds)
    (haccept : netloc ≠ [] → acceptsNetloc tables netloc = true) :
    IsSplit tables (splitParts scheme netloc rest) := by
  refine ⟨hscheme, hnetloc, haccept, ?_, ?_, ?_⟩
  · intro c hc
    obtain ⟨hhash, hmem⟩ := mem_splitParts_front (.inl hc)
    refine ⟨?_, hhash, hrest c hmem⟩
    rintro rfl
    exact not_mem_partition '?' _ hc
  · intro hne c hc
    have hmem : c ∈ (splitParts scheme netloc rest).path := List.mem_of_mem_head? hc
    have hhead : rest.head? = some c := by
      cases rest with
      | nil => simp [splitParts, partition] at hc
      | cons d rest =>
        by_cases hd : d = '#' <;> by_cases hq : d = '?' <;>
          simp_all [splitParts, partition]
    have hend := hstart hne c hhead
    obtain ⟨hhash, -⟩ := mem_splitParts_front (.inl hmem)
    have hquestion : c ≠ '?' := by
      rintro rfl
      exact not_mem_partition '?' _ hmem
    simpa [authorityEnds, hhash, hquestion] using hend
  · intro c hc
    obtain ⟨hhash, hmem⟩ := mem_splitParts_front (.inr hc)
    exact ⟨hhash, hrest c hmem⟩

theorem drop_takeWhile_length (p : Char → Bool) (s : Text) :
    s.drop (s.takeWhile p).length = s.dropWhile p := by
  conv_lhs => arg 2; rw [← List.takeWhile_append_dropWhile (p := p) (l := s)]
  exact List.drop_left

theorem isSplit_urlsplit {url : Text} {r : SplitResult} (h : urlsplit tables url [] = some r) :
    IsSplit tables r := by
  unfold urlsplit at h
  set cleaned := (url.dropWhile isControlOrSpace).filter (!isUnsafe ·) with hcleaned
  have hclean : ∀ c ∈ (splitScheme [] cleaned).2, isUnsafe c = false := by
    intro c hc
    have hmem := mem_splitScheme hc
    rw [hcleaned, List.mem_filter] at hmem
    simpa using hmem.2
  have hscheme := isScheme_splitScheme cleaned
  simp only [show strip [] = [] from rfl, List.filter_nil] at h
  generalize (splitScheme [] cleaned).1 = scheme at h hscheme
  split at h
  · next rest hrest =>
    rw [hrest] at hclean
    have hrestClean : ∀ c ∈ rest, isUnsafe c = false :=
      fun c hc => hclean c (List.mem_cons_of_mem _ (List.mem_cons_of_mem _ hc))
    rw [splitNetloc_eq, Option.ite_none_right_eq_some, Option.some.injEq] at h
    obtain ⟨haccept, rfl⟩ := h
    refine isSplit_parts hscheme ?_ ?_ ?_ fun _ => haccept
    · intro c hc
      refine ⟨?_, hrestClean c ((List.takeWhile_prefix _).mem hc)⟩
      simpa [authorityEnds] using List.mem_takeWhile_imp hc
    · intro c hc
      exact hrestClean c (List.mem_of_mem_drop hc)
    · intro _ c hc
      rw [drop_takeWhile_length] at hc
      have hnot := List.head?_dropWhile_not (fun c => decide (c ∉ ['/', '?', '#'])) rest
      rw [hc] at hnot
      simpa [authorityEnds, or_iff_not_imp_left] using hnot
  · next url =>
    rw [splitRest_eq, Option.ite_none_right_eq_some, Option.some.injEq] at h
    obtain ⟨-, rfl⟩ := h
    refine isSplit_parts hscheme ?_ hclean ?_ ?_
    · intro c hc
      cases hc
    · intro hne
      exact absurd rfl hne
    · intro hne
      exact absurd rfl hne

/-- Behind an authority the path is empty or begins with a slash. -/
theorem IsSplit.path_nil_or_slash {r : SplitResult} (h : IsSplit tables r) (hnetloc : r.netloc ≠ []) :
    r.path = [] ∨ r.path.head? = some '/' := by
  cases hpath : r.path with
  | nil => exact .inl rfl
  | cons c rest =>
    right
    have hc := h.path_start hnetloc c (by rw [hpath]; rfl)
    rw [hc]
    rfl

/-! ## Hosts and ports -/

/-- A port behind a host. -/
def portTail : Option Text → Text
  | none => []
  | some digits => ':' :: digits

namespace SplitResult

theorem hostinfo_bracketed {r : SplitResult} {host : Text} {port : Option Text}
    (hnetloc : r.netloc = '[' :: host ++ ']' :: portTail port) (hat : '@' ∉ r.netloc)
    (hhost : ']' ∉ host) (hport : ∀ digits ∈ port, digits ≠ []) : r.hostinfo = (host, port) := by
  have hopen : partition '[' r.netloc = ([], true, host ++ ']' :: portTail port) := by
    rw [hnetloc]
    exact partition_append (s := []) List.not_mem_nil _
  rw [hostinfo, rpartition_of_not_mem hat]
  simp only [hopen, if_true, partition_append hhost]
  cases port with
  | none => rfl
  | some digits =>
    have htail : partition ':' (portTail (some digits)) = ([], true, digits) :=
      partition_append (s := []) List.not_mem_nil _
    simp [htail, hport digits rfl]

theorem hostinfo_plain {r : SplitResult} {host : Text} {port : Option Text}
    (hnetloc : r.netloc = host ++ portTail port) (hat : '@' ∉ r.netloc) (hopen : '[' ∉ r.netloc)
    (hhost : ':' ∉ host) (hport : ∀ digits ∈ port, digits ≠ []) : r.hostinfo = (host, port) := by
  rw [hostinfo, rpartition_of_not_mem hat]
  simp only [partition_of_not_mem hopen, Bool.false_eq_true, if_false]
  rw [hnetloc]
  cases port with
  | none =>
    rw [portTail, List.append_nil, partition_of_not_mem hhost]
    rfl
  | some digits =>
    rw [portTail, partition_append hhost]
    simp [hport digits rfl]

/-- User, host and port are read of the authority. -/
theorem hostinfo_congr {r s : SplitResult} (h : r.netloc = s.netloc) : r.hostinfo = s.hostinfo := by
  rw [hostinfo, hostinfo, h]

theorem hostname_congr (tables : Tables) {r s : SplitResult} (h : r.netloc = s.netloc) :
    r.hostname tables = s.hostname tables := by
  rw [hostname, hostname, hostinfo_congr h]

theorem port_congr {r s : SplitResult} (h : r.netloc = s.netloc) : r.port = s.port := by
  rw [port, port, hostinfo_congr h]

/-- The host as written is part of the authority behind the user. -/
theorem mem_of_mem_host {r : SplitResult} {c : Char} (h : c ∈ r.hostinfo.1) :
    c ∈ r.netloc ∧ c ≠ '@' := by
  have hinfo : c ∈ (rpartition '@' r.netloc).2.2 := by
    simp only [hostinfo] at h
    split at h
    · exact mem_of_mem_partition (.inr (mem_of_mem_partition (.inl h)))
    · exact mem_of_mem_partition (.inl h)
  refine ⟨mem_of_mem_rpartition hinfo, ?_⟩
  rintro rfl
  exact not_mem_rpartition '@' r.netloc hinfo

/-- A host in brackets has no closing one, another host no colon. -/
theorem host_bracketed_or_plain (r : SplitResult) :
    '[' ∈ r.netloc ∧ ']' ∉ r.hostinfo.1 ∨ ':' ∉ r.hostinfo.1 := by
  simp only [hostinfo]
  split
  · next hfound =>
    refine .inl ⟨?_, not_mem_partition ']' _⟩
    have hmem : '[' ∈ (rpartition '@' r.netloc).2.2 := by simpa [partition] using hfound
    exact mem_of_mem_rpartition hmem
  · exact .inr (not_mem_partition ':' _)

/-- A host read of an accepted authority without a user has no closing bracket. -/
theorem close_not_mem_host {r : SplitResult} (hat : '@' ∉ r.netloc)
    (haccept : acceptsNetloc tables r.netloc = true) : ']' ∉ r.hostinfo.1 := by
  by_cases hopen : '[' ∈ r.netloc
  · have hfound : (partition '[' r.netloc).2.1 = true := by simpa [partition] using hopen
    simp only [hostinfo, rpartition_of_not_mem hat, hfound, if_true]
    exact not_mem_partition ']' _
  · intro hclose
    have hmem := (mem_of_mem_host hclose).1
    simp [acceptsNetloc, hopen, hmem] at haccept

end SplitResult
end CrawlTrove.Web
