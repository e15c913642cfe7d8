import CrawlTrove.Egress.Connect

/-!
# What `parse_connect` accepts

Each function of the parser is tied to the part of the grammar it is meant for, and what
the grammar allows and the parser does not, or the other way round, is collected in two
predicates on messages: `Short`, that `int` reads the ports, and `Lowers`, that the name
of the host is valid in lower case too.
-/

namespace CrawlTrove.Inet

open Web (split joinWith)

/-- The characters of an IPv6 address. -/
def IsAddressChar (c : Char) : Prop := (hexValue? c).isSome = true ∨ c = ':' ∨ c = '.'

theorem hexValue?_of_isDigit {c : Char} (h : isDigit c = true) : (hexValue? c).isSome = true := by
  rw [hexValue?, if_pos h]
  rfl

theorem mem_of_parseHextet {part : Text} {n : ℕ} (h : parseHextet part = some n) {c : Char}
    (hc : c ∈ part) : (hexValue? c).isSome = true := by
  unfold parseHextet at h
  rw [Option.ite_none_left_eq_some] at h
  obtain ⟨digits, hdigits, -⟩ := Option.map_eq_some_iff.mp h.2
  obtain ⟨k, hk⟩ := exists_of_mapM hdigits hc
  rw [hk]
  rfl

theorem groupsBefore_mem {first : Text} {before groups : List Text}
    (h : groupsBefore first before = some groups) :
    ∀ part ∈ first :: before, part = [] ∨ part ∈ groups := by
  unfold groupsBefore at h
  split at h
  · next hfirst =>
    rw [Option.ite_none_right_eq_some] at h
    obtain ⟨rfl, -⟩ := h
    intro part hpart
    exact .inl ((List.mem_singleton.mp hpart).trans hfirst)
  · obtain rfl := Option.some.inj h
    exact fun part hpart => .inr hpart

theorem groupsAfter_mem {last : Text} {after groups : List Text}
    (h : groupsAfter after last = some groups) :
    ∀ part ∈ after ++ [last], part = [] ∨ part ∈ groups := by
  unfold groupsAfter at h
  split at h
  · next hlast =>
    rw [Option.ite_none_right_eq_some] at h
    obtain ⟨rfl, -⟩ := h
    intro part hpart
    exact .inl ((List.mem_singleton.mp hpart).trans hlast)
  · obtain rfl := Option.some.inj h
    exact fun part hpart => .inr hpart

/-- Every part is a group, unless it is empty. -/
theorem readGroups_mem {first last : Text} {interior : List Text} {groups : List ℕ}
    (h : readGroups first interior last = some groups) :
    ∀ part ∈ first :: interior ++ [last], part = [] ∨ ∃ n, parseHextet part = some n := by
  intro part hpart
  unfold readGroups at h
  split at h
  · rw [Option.ite_none_right_eq_some] at h
    exact .inr (exists_of_mapM h.2 hpart)
  · next before omitted after hspan =>
    rw [Option.ite_none_left_eq_some] at h
    obtain ⟨-, h⟩ := h
    simp only [Option.bind_eq_bind, Option.bind_eq_some_iff] at h
    obtain ⟨high, hhigh, low, hlow, h⟩ := h
    rw [Option.ite_none_left_eq_some] at h
    simp only [Option.bind_eq_some_iff] at h
    obtain ⟨-, highs, hhighs, lows, hlows, -⟩ := h
    rw [List.span_eq_takeWhile_dropWhile, Prod.mk.injEq] at hspan
    obtain ⟨rfl, hdrop⟩ := hspan
    have homitted : omitted = [] := by
      have hhead := List.head?_dropWhile_not (· ≠ []) interior
      rw [hdrop] at hhead
      simpa using hhead
    have hinterior : interior = interior.takeWhile (· ≠ []) ++ omitted :: after := by
      rw [← hdrop, List.takeWhile_append_dropWhile]
    rw [hinterior] at hpart
    simp only [List.cons_append, List.append_assoc, List.mem_cons, List.mem_append] at hpart
    have hgroup : part ∈ first :: interior.takeWhile (· ≠ []) ∨ part = omitted ∨
        part ∈ after ++ [last] := by
      simp only [List.mem_cons, List.mem_append]
      tauto
    obtain hgroup | rfl | hgroup := hgroup
    · obtain hempty | hmem := groupsBefore_mem hhigh part hgroup
      · exact .inl hempty
      · exact .inr (exists_of_mapM hhighs hmem)
    · exact .inl homitted
    · obtain hempty | hmem := groupsAfter_mem hlow part hgroup
      · exact .inl hempty
      · exact .inr (exists_of_mapM hlows hmem)

/-- An IPv6 address is written in hexadecimal digits, colons and full stops. -/
theorem mem_of_parse6 {s : Text} {n : Fin (2 ^ 128)} (h : parse6 s = some n) {c : Char}
    (hc : c ∈ s) : IsAddressChar c := by
  obtain ⟨groups, hgroups, -⟩ := Option.map_eq_some_iff.mp h
  obtain ⟨parts, hparts, hread⟩ := Option.bind_eq_some_iff.mp hgroups
  have hread : ∀ part ∈ parts, part = [] ∨ ∃ n, parseHextet part = some n := by
    rw [Option.ite_none_left_eq_some] at hread
    obtain ⟨-, hread⟩ := hread
    cases parts with
    | nil => cases hread
    | cons first rest =>
      intro part hpart
      refine readGroups_mem hread part ?_
      cases hrest : rest.getLast? with
      | none =>
        obtain rfl := List.getLast?_eq_none_iff.mp hrest
        obtain rfl := List.mem_singleton.mp hpart
        exact List.mem_cons_self
      | some last =>
        obtain ⟨front, rfl⟩ := List.getLast?_eq_some_iff.mp hrest
        simpa using hpart
  have hgroup : ∀ part ∈ parts, c ∈ part → IsAddressChar c := by
    intro part hpart hmem
    obtain rfl | ⟨n, hn⟩ := hread part hpart
    · cases hmem
    · exact .inl (mem_of_parseHextet hn hmem)
  obtain rfl | ⟨part, hpart, hmem⟩ := mem_parts (c := ':') hc
  · exact .inr (.inl rfl)
  · unfold splitGroups at hparts
    dsimp only at hparts
    rw [Option.ite_none_left_eq_some] at hparts
    obtain ⟨-, hparts⟩ := hparts
    split at hparts
    · obtain ⟨m, hm, rfl⟩ := Option.map_eq_some_iff.mp hparts
      -- The last part is an IPv4 address.
      obtain hlast | hfront : part = (split ':' s).getLastD [] ∨ part ∈ (split ':' s).dropLast := by
        obtain ⟨front, last, hsplit⟩ := List.eq_nil_or_concat' (split ':' s) |>.resolve_left
          (Web.split_ne_nil ':' s)
        rw [hsplit] at hpart ⊢
        simpa [or_comm] using hpart
      · rw [← hlast] at hm
        obtain hdigit | rfl := mem_of_parse4 hm hmem
        · exact .inl (hexValue?_of_isDigit hdigit)
        · exact .inr (.inr rfl)
      · exact hgroup part (List.mem_append_left _ hfront) hmem
    · obtain rfl := Option.some.inj hparts
      exact hgroup part hpart hmem

end CrawlTrove.Inet

namespace CrawlTrove.Egress.Connect

open Web (Text split splitCrlf hasCrlf joinWith partition rpartition isAscii encodeAscii decodeAscii)
open Normalize (ScopedAddress)
open Inet (Address isDigit parse4 parse6)

variable {tables : IdnaTables}

/-! ## Hosts -/

theorem parse4_eq_none {host : Text} (h : ':' ∈ host) : parse4 host = none := by
  cases hparse : parse4 host with
  | none => rfl
  | some n => exact absurd (Inet.mem_of_parse4 hparse h) (by decide)

theorem parse6_eq_none {host : Text} (h : ':' ∉ host) : parse6 host = none := by
  cases hparse : parse6 host with
  | none => rfl
  | some n => exact absurd (Normalize.colon_of_parse6 hparse) h

theorem isHostLabel_iff {label : Text} : isHostLabel label = true ↔ IsLabel label := by
  simp only [isHostLabel, Bool.and_eq_true, decide_eq_true_eq, List.all_eq_true, Bool.or_eq_true,
    Option.any_eq_true]
  constructor
  · rintro ⟨⟨⟨hsize, hfirst⟩, hlast⟩, hchars⟩
    exact ⟨hsize, hfirst, hlast, hchars⟩
  · intro h
    exact ⟨⟨⟨h.size, h.first⟩, h.last⟩, h.chars⟩

/-- A character of a host name. -/
theorem IsName.mem {host : Text} (h : IsName tables host) {c : Char} (hc : c ∈ host) :
    c.isAlphanum = true ∨ c = '-' ∨ c = '.' := by
  obtain rfl | ⟨label, hlabel, hmem⟩ := Inet.mem_parts (c := '.') hc
  · exact .inr (.inr rfl)
  · obtain halnum | hhyphen := (h.labels label hlabel).chars c hmem
    · exact .inl halnum
    · exact .inr (.inl hhyphen)

theorem toNat_of_alphanum {c : Char} (h : c.isAlphanum = true) : 48 ≤ c.toNat ∧ c.toNat ≤ 122 := by
  simp only [Char.isAlphanum, Char.isAlpha, Char.isUpper, Char.isLower, Char.isDigit,
    Bool.or_eq_true, Bool.and_eq_true, decide_eq_true_eq, UInt32.le_iff_toNat_le, ge_iff_le] at h
  have hval : c.toNat = c.val.toNat := rfl
  have hZ : 'Z'.val.toNat = 90 := rfl
  have hA : 'A'.val.toNat = 65 := rfl
  have hz : 'z'.val.toNat = 122 := rfl
  have ha : 'a'.val.toNat = 97 := rfl
  have h0 : '0'.val.toNat = 48 := rfl
  have h9 : '9'.val.toNat = 57 := rfl
  omega

theorem IsName.not_mem {host : Text} (h : IsName tables host) {c : Char}
    (hc : c.isAlphanum = false ∧ c ≠ '-' ∧ c ≠ '.') : c ∉ host := by
  intro hmem
  obtain halnum | hhyphen | hdot := h.mem hmem
  · rw [hc.1] at halnum
    cases halnum
  · exact hc.2.1 hhyphen
  · exact hc.2.2 hdot

theorem IsName.ascii {host : Text} (h : IsName tables host) : host.all isAscii = true := by
  rw [List.all_eq_true]
  intro c hc
  obtain halnum | rfl | rfl := h.mem hc
  · have hbounds := toNat_of_alphanum halnum
    exact decide_eq_true (by omega)
  · decide
  · decide

theorem not_isName_nil : ¬ IsName tables [] := by
  intro h
  obtain ⟨c, hc, -⟩ := (h.labels [] List.mem_cons_self).first
  cases hc

theorem split_concat (c : Char) (s : Text) : split c (s ++ [c]) = split c s ++ [[]] := by
  induction s with
  | nil => simp [split]
  | cons d s ih =>
    rw [List.cons_append, split, split, ih]
    split
    · rfl
    · cases hparts : split c s with
      | nil => exact absurd hparts (Web.split_ne_nil c s)
      | cons part parts => rfl

/-- The last character of a name is one of its last label. -/
theorem IsName.getLast? {host : Text} (h : IsName tables host) : host.getLast? ≠ some '.' := by
  intro hlast
  obtain ⟨front, rfl⟩ := List.getLast?_eq_some_iff.mp hlast
  have hempty : [] ∈ split '.' (front ++ ['.']) := by
    rw [split_concat]
    exact List.mem_concat_self
  obtain ⟨c, hc, -⟩ := (h.labels [] hempty).first
  cases hc

/-- What `_normalise_host` asks of every host. -/
def Plain (host : Text) : Prop :=
  host ≠ [] ∧ host.length ≤ 253 ∧ ∀ c ∈ host, c ∉ ['%', '/', '?', '#', '@']

theorem Plain.not_mem {host : Text} (h : Plain host) {c : Char}
    (hc : c ∈ ['%', '/', '?', '#', '@']) : c ∉ host := fun hmem => h.2.2 c hmem hc

theorem plain_iff {host : Text} :
    (host.isEmpty || decide (253 < host.length) || host.contains '%') = false ∧
        (['/', '?', '#', '@'].any host.contains) = false ↔ Plain host := by
  simp only [Bool.or_eq_false_iff, List.isEmpty_eq_false_iff, decide_eq_false_iff_not, not_lt,
    List.any_eq_false, List.contains_iff_mem]
  constructor
  · rintro ⟨⟨⟨hne, hsize⟩, hpercent⟩, hmarks⟩
    refine ⟨hne, hsize, fun c hc hmem => ?_⟩
    obtain rfl | hmem := List.mem_cons.mp hmem
    · simp [hc] at hpercent
    · exact hmarks c hmem hc
  · rintro ⟨hne, hsize, hmarks⟩
    refine ⟨⟨⟨hne, hsize⟩, ?_⟩, fun c hc hmem => hmarks c hmem (List.mem_cons_of_mem _ hc)⟩
    by_contra hcontains
    rw [Bool.not_eq_false, List.contains_iff_mem] at hcontains
    exact hmarks '%' hcontains List.mem_cons_self

theorem plain_of_normaliseHost {host canonical : Text}
    (h : normaliseHost tables host = .ok canonical) : Plain host := by
  unfold normaliseHost at h
  split at h
  · cases h
  · next hfirst =>
    split at h
    · cases h
    · next hsecond =>
      exact plain_iff.mp ⟨Bool.eq_false_of_not_eq_true hfirst, Bool.eq_false_of_not_eq_true hsecond⟩

theorem normaliseHost_of_ipAddress {host : Text} {address : ScopedAddress} (h : Plain host)
    (haddress : Normalize.ipAddress host = some address) :
    normaliseHost tables host = .ok address.compressed := by
  obtain ⟨hfirst, hsecond⟩ := plain_iff.mpr h
  simp only [normaliseHost, hfirst, hsecond, haddress, Bool.false_eq_true, if_false]

theorem isName_iff {host : Text} :
    (!host.all isAscii || (decodeIdna tables host).isNone) = false ∧
        (decide (host.getLast? = some '.') ||
          (split '.' host).any fun label => !isHostLabel label) = false ↔
      IsName tables host := by
  simp only [Bool.or_eq_false_iff, Bool.not_eq_false', decide_eq_false_iff_not, List.any_eq_false,
    Bool.not_eq_true', Bool.not_eq_false, isHostLabel_iff, Option.isNone_eq_false_iff]
  constructor
  · rintro ⟨⟨-, hdecodes⟩, -, hlabels⟩
    exact ⟨hlabels, hdecodes⟩
  · intro h
    exact ⟨⟨h.ascii, h.decodes⟩, h.getLast?, h.labels⟩

theorem normaliseHost_of_name {host canonical : Text} (h : Plain host)
    (haddress : Normalize.ipAddress host = none) :
    normaliseHost tables host = .ok canonical ↔
      IsName tables host ∧ canonical = host.map Char.toLower := by
  obtain ⟨hfirst, hsecond⟩ := plain_iff.mpr h
  simp only [normaliseHost, hfirst, hsecond, haddress, Bool.false_eq_true, if_false]
  rw [← isName_iff]
  constructor
  · intro hok
    split at hok
    · cases hok
    · next hascii =>
      split at hok
      · cases hok
      · next hlabels =>
        exact ⟨⟨Bool.eq_false_of_not_eq_true hascii, Bool.eq_false_of_not_eq_true hlabels⟩,
          (Except.ok.inj hok).symm⟩
  · rintro ⟨⟨hascii, hlabels⟩, rfl⟩
    rw [hascii, hlabels]
    rfl

theorem IsHost.plain {bracketed : Bool} {host canonical : Text}
    (h : IsHost tables bracketed host canonical) : Plain host := by
  refine ⟨?_, h.size, h.marks⟩
  rintro rfl
  cases h.denotes with
  | v6 hparse => cases hparse
  | v4 hparse => cases hparse
  | name hname _ => exact not_isName_nil hname

theorem ipAddress_host {host : Text} (h : Plain host) :
    Normalize.ipAddress host =
      match parse4 host with
      | some n => some ⟨.v4 n, none⟩
      | none => (parse6 host).map fun n => ⟨.v6 n, none⟩ :=
  Normalize.ipAddress_plain (h.not_mem (by decide)) (h.not_mem (by decide))

/-- A host outside of brackets has no colon. -/
theorem normaliseHost_eq_ok {host canonical : Text} (hcolon : ':' ∉ host) :
    normaliseHost tables host = .ok canonical ↔ IsHost tables false host canonical := by
  constructor
  · intro h
    have hplain := plain_of_normaliseHost h
    have haddress := ipAddress_host hplain
    rw [parse6_eq_none hcolon] at haddress
    refine ⟨hplain.2.1, hplain.2.2, ?_⟩
    cases hparse : parse4 host with
    | some n =>
      rw [hparse] at haddress
      obtain rfl := Except.ok.inj ((normaliseHost_of_ipAddress hplain haddress).symm.trans h)
      exact .v4 hparse
    | none =>
      rw [hparse] at haddress
      obtain ⟨hname, rfl⟩ := (normaliseHost_of_name hplain haddress).mp h
      exact .name hname hparse
  · intro h
    have haddress := ipAddress_host h.plain
    rw [parse6_eq_none hcolon] at haddress
    cases h.denotes with
    | v4 hparse =>
      rw [hparse] at haddress
      exact normaliseHost_of_ipAddress h.plain haddress
    | name hname hparse =>
      rw [hparse] at haddress
      exact (normaliseHost_of_name h.plain haddress).mpr ⟨hname, rfl⟩

/-- A host in brackets. -/
theorem normaliseHost_eq_ok_v6 {host canonical : Text} :
    isVersion6 host = true ∧ normaliseHost tables host = .ok canonical ↔
      IsHost tables true host canonical := by
  constructor
  · rintro ⟨hversion, h⟩
    have hplain := plain_of_normaliseHost h
    have haddress := ipAddress_host hplain
    refine ⟨hplain.2.1, hplain.2.2, ?_⟩
    cases hparse : parse4 host with
    | some n =>
      rw [hparse] at haddress
      simp [isVersion6, haddress] at hversion
    | none =>
      rw [hparse] at haddress
      cases hparse6 : parse6 host with
      | none =>
        rw [hparse6] at haddress
        simp [isVersion6, haddress] at hversion
      | some n =>
        rw [hparse6] at haddress
        obtain rfl := Except.ok.inj ((normaliseHost_of_ipAddress hplain haddress).symm.trans h)
        exact .v6 hparse6
  · intro h
    have haddress := ipAddress_host h.plain
    cases h.denotes with
    | v6 hparse =>
      rw [parse4_eq_none (Normalize.colon_of_parse6 hparse), hparse] at haddress
      exact ⟨by simp [isVersion6, haddress], normaliseHost_of_ipAddress h.plain haddress⟩

/-! ## Authorities -/

/-- How many digits `int` is given. -/
def portDigits (authority : Text) : ℕ := (rpartition ':' authority).2.2.length

variable {allowedPorts : List ℕ}

theorem parsePort_eq_ok {digits : Text} {port : ℕ} :
    parsePort allowedPorts digits = .ok port ↔
      IsPort allowedPorts digits port ∧ digits.length ≤ maxStrDigits := by
  unfold parsePort
  constructor
  · intro h
    split at h
    · cases h
    · next hdigits =>
      simp only [Bool.or_eq_true, List.isEmpty_iff, Bool.not_eq_true', not_or,
        Bool.not_eq_false, List.all_eq_true] at hdigits
      split at h
      · cases h
      · next hsize =>
        dsimp only at h
        split at h
        · next hallowed =>
          obtain rfl := Except.ok.inj h
          exact ⟨⟨hdigits.1, hdigits.2, rfl, List.contains_iff_mem.mp hallowed⟩,
            Nat.le_of_not_lt hsize⟩
        · cases h
  · rintro ⟨⟨hne, hdecimal, rfl, hallowed⟩, hsize⟩
    rw [if_neg ?_, if_neg (Nat.not_lt.mpr hsize)]
    · exact if_pos (List.contains_iff_mem.mpr hallowed)
    · simpa [hne] using hdecimal

theorem parseHostAndPort_eq_ok {host digits canonical : Text} {port : ℕ} :
    parseHostAndPort tables allowedPorts host digits = .ok (canonical, port) ↔
      normaliseHost tables host = .ok canonical ∧ IsPort allowedPorts digits port ∧
        digits.length ≤ maxStrDigits := by
  unfold parseHostAndPort
  rw [← parsePort_eq_ok]
  cases hport : parsePort allowedPorts digits with
  | error failure => simp [bind, Except.bind]
  | ok n =>
    cases hhost : normaliseHost tables host with
    | error failure => simp [bind, Except.bind]
    | ok name =>
      simp [bind, Except.bind, pure, Except.pure]

theorem colon_not_mem_digits {digits : Text} {port : ℕ} (h : IsPort allowedPorts digits port) :
    ':' ∉ digits := fun hmem => absurd (h.decimal ':' hmem) (by decide)

/-- What is behind the last colon. -/
theorem rpartition_append {c : Char} {rest : Text} (h : c ∉ rest) (s : Text) :
    rpartition c (s ++ c :: rest) = (s, true, rest) := by
  have hreverse : (s ++ c :: rest).reverse = rest.reverse ++ c :: s.reverse := by simp
  rw [rpartition, hreverse, Web.partition_append (by simpa using h)]
  simp

theorem portDigits_append {digits : Text} (h : ':' ∉ digits) (s : Text) :
    portDigits (s ++ ':' :: digits) = digits.length := by
  rw [portDigits, rpartition_append h]

/-- A host outside of brackets has neither a colon nor a bracket. -/
theorem IsHost.not_mem {host canonical : Text} (h : IsHost tables false host canonical) {c : Char}
    (hc : c.isAlphanum = false ∧ c ≠ '-' ∧ c ≠ '.') (hdigit : isDigit c = false) : c ∉ host := by
  intro hmem
  cases h.denotes with
  | v4 hparse =>
    obtain hmem | hdot := Inet.mem_of_parse4 hparse hmem
    · rw [hdigit] at hmem
      cases hmem
    · exact hc.2.2 hdot
  | name hname _ => exact hname.not_mem hc hmem

theorem IsHost.close_not_mem {bracketed : Bool} {host canonical : Text}
    (h : IsHost tables bracketed host canonical) : ']' ∉ host := by
  cases bracketed with
  | false => exact h.not_mem (by decide) (by decide)
  | true =>
    intro hmem
    cases h.denotes with
    | v6 hparse =>
      obtain hhex | hcolon | hdot := Inet.mem_of_parse6 hparse hmem
      · exact absurd hhex (by decide)
      · cases hcolon
      · cases hdot

theorem bracket_true (host : Text) : bracket true host = '[' :: host ++ [']'] := rfl

theorem bracket_false (host : Text) : bracket false host = host := rfl

/-- An authority in brackets: the parser looks for the first closing one. -/
theorem parseAuthority_bracketed {host rest canonical : Text} {port : ℕ} (hclose : ']' ∉ host) :
    parseAuthority tables allowedPorts ('[' :: host ++ ']' :: rest) = .ok (canonical, port) ↔
      ∃ digits, rest = ':' :: digits ∧ IsHost tables true host canonical ∧
        IsPort allowedPorts digits port ∧ digits.length ≤ maxStrDigits := by
  have hopened : ']' ∉ '[' :: host := by simpa using hclose
  have hpartition := Web.partition_append hopened rest
  have hopen : ('[' :: host ++ ']' :: rest).head? = some '[' := rfl
  simp only [parseAuthority, hpartition]
  rw [if_pos hopen]
  constructor
  · intro h
    split at h
    · cases h
    · next hshape =>
      simp only [Bool.not_true, Bool.false_or, Bool.or_eq_true, decide_eq_true_eq, not_or,
        ne_eq, not_not] at hshape
      split at h
      · cases h
      · split at h
        · cases h
        · next hversion =>
          obtain ⟨digits, rfl⟩ := List.head?_eq_some_iff.mp hshape.2
          obtain ⟨hhost, hport⟩ := parseHostAndPort_eq_ok.mp h
          rw [Bool.not_eq_true', Bool.not_eq_false] at hversion
          exact ⟨digits, rfl, normaliseHost_eq_ok_v6.mp ⟨hversion, hhost⟩, hport⟩
  · rintro ⟨digits, rfl, hhost, hport⟩
    obtain ⟨hversion, hnormal⟩ := normaliseHost_eq_ok_v6.mpr hhost
    have hdigits : ']' ∉ digits := fun hmem => absurd (hport.1.decimal _ hmem) (by decide)
    have hsize : ¬ host.length + 1 ≤ 1 := by
      have hne := List.length_pos_of_ne_nil hhost.plain.1
      omega
    rw [if_neg (by simpa using hhost.plain.1), if_neg (by simpa using hdigits),
      if_neg (by simp [hversion])]
    exact parseHostAndPort_eq_ok.mpr ⟨hnormal, hport⟩

/-- An authority without brackets: there is one colon. -/
theorem parseAuthority_plain {authority canonical : Text} {port : ℕ}
    (hopen : authority.head? ≠ some '[') :
    parseAuthority tables allowedPorts authority = .ok (canonical, port) ↔
      ∃ host digits, authority = host ++ ':' :: digits ∧ IsHost tables false host canonical ∧
        IsPort allowedPorts digits port ∧ digits.length ≤ maxStrDigits := by
  simp only [parseAuthority]
  rw [if_neg hopen]
  constructor
  · intro h
    split at h
    · cases h
    · next hcount =>
      rw [not_not] at hcount
      have hmem : ':' ∈ authority := List.count_pos_iff.mp (by omega)
      obtain ⟨host, digits, rfl, hhost⟩ := List.eq_append_cons_of_mem hmem
      have hdigits : ':' ∉ digits := by
        rw [List.count_append, List.count_cons_self, List.count_eq_zero_of_not_mem hhost] at hcount
        exact List.count_eq_zero.mp (by omega)
      rw [rpartition_append hdigits] at h
      obtain ⟨hname, hport⟩ := parseHostAndPort_eq_ok.mp h
      exact ⟨host, digits, rfl, (normaliseHost_eq_ok hhost).mp hname, hport⟩
  · rintro ⟨host, digits, rfl, hhost, hport⟩
    have hcolon := hhost.not_mem (c := ':') (by decide) (by decide)
    have hdigits := colon_not_mem_digits hport.1
    rw [if_neg ?_, rpartition_append hdigits]
    · exact parseHostAndPort_eq_ok.mpr ⟨(normaliseHost_eq_ok hcolon).mpr hhost, hport⟩
    · rw [List.count_append, List.count_cons_self, List.count_eq_zero_of_not_mem hcolon,
        List.count_eq_zero_of_not_mem hdigits]
      decide

theorem IsHost.head? {host canonical : Text} (h : IsHost tables false host canonical)
    (rest : Text) : (host ++ rest).head? ≠ some '[' := by
  have hopen := h.not_mem (c := '[') (by decide) (by decide)
  cases host with
  | nil => exact absurd rfl h.plain.1
  | cons c host =>
    rintro ⟨⟩
    exact hopen List.mem_cons_self

theorem parseAuthority_eq_ok {authority canonical : Text} {port : ℕ} :
    parseAuthority tables allowedPorts authority = .ok (canonical, port) ↔
      IsAuthority tables allowedPorts authority canonical port ∧
        portDigits authority ≤ maxStrDigits := by
  constructor
  · intro h
    by_cases hopen : authority.head? = some '['
    · obtain ⟨inner, rfl⟩ := List.head?_eq_some_iff.mp hopen
      by_cases hclose : ']' ∈ inner
      · obtain ⟨host, rest, rfl, hhost⟩ := List.eq_append_cons_of_mem hclose
        obtain ⟨digits, rfl, hname, hport, hsize⟩ := (parseAuthority_bracketed hhost).mp h
        have hshape : '[' :: (host ++ ']' :: ':' :: digits) = bracket true host ++ ':' :: digits := by
          simp [bracket_true]
        rw [hshape, portDigits_append (colon_not_mem_digits hport)]
        exact ⟨⟨true, host, digits, rfl, hname, hport⟩, hsize⟩
      · have hpartition := Web.partition_of_not_mem (c := ']') (s := '[' :: inner) (by simpa using hclose)
        simp only [parseAuthority, hpartition] at h
        rw [if_pos hopen, if_pos (by simp)] at h
        cases h
    · obtain ⟨host, digits, rfl, hname, hport, hsize⟩ := (parseAuthority_plain hopen).mp h
      rw [portDigits_append (colon_not_mem_digits hport)]
      exact ⟨⟨false, host, digits, rfl, hname, hport⟩, hsize⟩
  · rintro ⟨⟨bracketed, host, digits, rfl, hname, hport⟩, hsize⟩
    rw [portDigits_append (colon_not_mem_digits hport)] at hsize
    cases bracketed with
    | true =>
      rw [bracket_true, List.append_assoc, List.singleton_append]
      exact (parseAuthority_bracketed hname.close_not_mem).mpr ⟨digits, rfl, hname, hport, hsize⟩
    | false =>
      rw [bracket_false]
      exact (parseAuthority_plain (hname.head? _)).mpr ⟨host, digits, rfl, hname, hport, hsize⟩

theorem map_default {result : Result Text} {canonical : Text} {defaultPort port : ℕ} :
    result.map (·, defaultPort) = .ok (canonical, port) ↔
      result = .ok canonical ∧ port = defaultPort := by
  cases result with
  | error failure => simp [Except.map]
  | ok name => simp [Except.map, eq_comm]

theorem length_bracket (bracketed : Bool) (host : Text) :
    (bracket bracketed host).length ≤ host.length + 2 := by
  cases bracketed with
  | true => simp [bracket]
  | false => simp [bracket]

/-- Without a port nothing is too long for `int`. -/
theorem portDigits_of_host {bracketed : Bool} {host canonical : Text}
    (h : IsHost tables bracketed host canonical) :
    portDigits (bracket bracketed host) ≤ maxStrDigits := by
  have hlength := (List.takeWhile_sublist (· ≠ ':')
    (l := (bracket bracketed host).reverse)).length_le
  have hbracket := length_bracket bracketed host
  have hsize := h.size
  simp only [portDigits, rpartition, partition, List.length_reverse, maxStrDigits] at hlength ⊢
  omega

theorem parseHostHeader_eq_ok {value canonical : Text} {defaultPort port : ℕ} :
    parseHostHeader tables allowedPorts value defaultPort = .ok (canonical, port) ↔
      IsHostValue tables allowedPorts value defaultPort canonical port ∧
        portDigits value ≤ maxStrDigits := by
  unfold parseHostHeader
  constructor
  · intro h
    split at h
    · next hbrackets =>
      simp only [Bool.and_eq_true, decide_eq_true_eq] at hbrackets
      obtain ⟨inner, rfl⟩ := List.head?_eq_some_iff.mp hbrackets.1
      obtain ⟨front, hfront⟩ := List.getLast?_eq_some_iff.mp hbrackets.2
      cases front with
      | nil => cases hfront
      | cons c host =>
        have hinner : inner = host ++ [']'] := (List.cons.inj hfront).2
        subst hinner
        rw [List.tail_cons, List.dropLast_concat] at h
        dsimp only at h
        split at h
        · cases h
        · next hversion =>
          rw [Bool.not_eq_true', Bool.not_eq_false] at hversion
          obtain ⟨hnormal, rfl⟩ := map_default.mp h
          have hhost := normaliseHost_eq_ok_v6.mp ⟨hversion, hnormal⟩
          exact ⟨.inl ⟨true, host, rfl, hhost, rfl⟩, portDigits_of_host hhost⟩
    · split at h
      · next hcolon =>
        obtain ⟨hnormal, rfl⟩ := map_default.mp h
        have hhost := (normaliseHost_eq_ok (by simpa using hcolon)).mp hnormal
        exact ⟨.inl ⟨false, value, rfl, hhost, rfl⟩, portDigits_of_host hhost⟩
      · obtain ⟨hauthority, hdigits⟩ := parseAuthority_eq_ok.mp h
        exact ⟨.inr hauthority, hdigits⟩
  · rintro ⟨⟨bracketed, host, rfl, hhost, rfl⟩ | hauthority, hdigits⟩
    · cases bracketed with
      | true =>
        obtain ⟨hversion, hnormal⟩ := normaliseHost_eq_ok_v6.mpr hhost
        have hends : (bracket true host).head? = some '[' ∧
            (bracket true host).getLast? = some ']' := ⟨rfl, List.getLast?_concat⟩
        have hinner : (bracket true host).tail.dropLast = host := List.dropLast_concat
        rw [if_pos (by simp [hends]), hinner, if_neg (by simp [hversion])]
        exact map_default.mpr ⟨hnormal, rfl⟩
      | false =>
        have hopen : host.head? ≠ some '[' := by simpa using hhost.head? []
        have hcolon := hhost.not_mem (c := ':') (by decide) (by decide)
        rw [bracket_false, if_neg (by simp [hopen]), if_pos (by simpa using hcolon)]
        exact map_default.mpr ⟨(normaliseHost_eq_ok hcolon).mpr hhost, rfl⟩
    · have hparse := parseAuthority_eq_ok.mpr ⟨hauthority, hdigits⟩
      obtain ⟨bracketed, host, digits, rfl, hhost, hport⟩ := hauthority
      rw [if_neg ?_, if_neg (by simp), hparse]
      -- The last character is a digit.
      obtain ⟨front, last, rfl⟩ := List.eq_nil_or_concat' digits |>.resolve_left hport.nonempty
      have hlast : (bracket bracketed host ++ ':' :: (front ++ [last])).getLast? = some last := by
        rw [← List.cons_append, ← List.append_assoc, List.getLast?_concat]
      have hdigit := hport.decimal last List.mem_concat_self
      have hclose : last ≠ ']' := by
        rintro rfl
        exact absurd hdigit (by decide)
      simp [hlast, hclose]

/-! ## Fields -/

theorem Field.partition_line (f : Field) : partition ':' f.line = (f.name, true, f.value) :=
  Web.partition_append f.colon f.value

theorem Field.collect (f : Field) (a b : List Text) :
    (if f.name.map Char.toLower = "host".toList then a else b) = if f.isHost then a else b := by
  by_cases h : f.name.map Char.toLower = "host".toList
  · have hhost : f.isHost = true := decide_eq_true h
    rw [if_pos h, if_pos hhost]
  · have hhost : f.isHost = false := decide_eq_false h
    rw [if_neg h, hhost]
    rfl

/-- One line of the loop over the headers. -/
theorem readHeaders_cons {hosts : List Text} {line : Text} {rest values : List Text}
    (hline : hasCrlf line = false) (hascii : ∀ c ∈ line, c.toNat < 128) :
    readHeaders hosts (line :: rest) = .ok values ↔
      ∃ f : Field, line = f.line ∧ f.Permitted ∧
        readHeaders (if f.isHost then hosts ++ [Corpus.trim f.value] else hosts) rest =
          .ok values := by
  rw [readHeaders]
  dsimp only
  constructor
  · intro h
    split at h
    · cases h
    · next hfound =>
      simp only [Bool.or_eq_true, List.isEmpty_iff, Bool.not_eq_true', not_or,
        Bool.not_eq_false] at hfound
      split at h
      · cases h
      · next hnamed =>
        simp only [Bool.or_eq_true, List.isEmpty_iff, not_or] at hnamed
        split at h
        · cases h
        · next hforwarded =>
          simp only [Bool.or_eq_true, List.contains_iff_mem, List.isPrefixOf_iff_prefix,
            not_or] at hforwarded
          split at h
          · cases h
          · next hbody =>
            rw [List.contains_iff_mem] at hbody
            have hjoin : (partition ':' line).1 ++ ':' :: (partition ':' line).2.2 = line := by
              simpa [hfound.2] using Web.partition_join ':' line
            have hbroken : hasCrlf ((partition ':' line).1 ++ ':' :: (partition ':' line).2.2) =
                false := by rw [hjoin, hline]
            let f : Field := ⟨(partition ':' line).1, (partition ':' line).2.2, hnamed.1,
              Web.not_mem_partition ':' line, hbroken⟩
            refine ⟨f, hjoin.symm, ⟨hforwarded.1, hforwarded.2, hbody⟩, ?_⟩
            rw [← f.collect]
            exact h
  · rintro ⟨f, rfl, hpermitted, h⟩
    have hname : f.name.all isAscii = true := by
      rw [List.all_eq_true]
      exact fun c hc => decide_eq_true (hascii c (List.mem_append_left _ hc))
    have hlisted : forwardedHeaders.contains (f.name.map Char.toLower) = false := by
      simpa [Field.lowered] using hpermitted.listed
    have hforwarded : "x-forwarded-".toList.isPrefixOf (f.name.map Char.toLower) = false := by
      rw [← Bool.not_eq_true, List.isPrefixOf_iff_prefix]
      exact hpermitted.forwarded
    have hbody : bodyHeaders.contains (f.name.map Char.toLower) = false := by
      simpa [Field.lowered] using hpermitted.body
    have hempty : f.line.isEmpty = false := by simp [Field.line]
    have hnamed : f.name.isEmpty = false := by simpa using f.named
    rw [f.partition_line]
    simp only [hempty, hnamed, hname, hlisted, hforwarded, hbody, Bool.not_true, Bool.or_false,
      Bool.false_eq_true, if_false, f.collect]
    exact h

theorem readHeaders_eq_ok {lines hosts values : List Text}
    (hlines : ∀ line ∈ lines, hasCrlf line = false)
    (hascii : ∀ line ∈ lines, ∀ c ∈ line, c.toNat < 128) :
    readHeaders hosts lines = .ok values ↔
      ∃ fields : List Field, lines = fields.map Field.line ∧ (∀ f ∈ fields, f.Permitted) ∧
        values = hosts ++ (fields.filter Field.isHost).map fun f => Corpus.trim f.value := by
  induction lines generalizing hosts with
  | nil =>
    constructor
    · intro h
      obtain rfl := Except.ok.inj h
      exact ⟨[], rfl, by simp, by simp⟩
    · rintro ⟨fields, hfields, -, rfl⟩
      obtain rfl := List.map_eq_nil_iff.mp hfields.symm
      simp [readHeaders]
  | cons line rest ih =>
    have hrest := fun hosts' : List Text => @ih hosts'
      (fun line hmem => hlines line (List.mem_cons_of_mem _ hmem))
      fun line hmem => hascii line (List.mem_cons_of_mem _ hmem)
    rw [readHeaders_cons (hlines line List.mem_cons_self) (hascii line List.mem_cons_self)]
    constructor
    · rintro ⟨f, rfl, hpermitted, h⟩
      obtain ⟨fields, rfl, hfields, rfl⟩ := (hrest _).mp h
      refine ⟨f :: fields, rfl, by simpa using ⟨hpermitted, hfields⟩, ?_⟩
      cases hhost : f.isHost with
      | true => simp [hhost]
      | false => simp [hhost]
    · rintro ⟨fields, hfields, hpermitted, rfl⟩
      cases fields with
      | nil => cases hfields
      | cons f fields =>
        obtain ⟨rfl, rfl⟩ := List.cons.inj hfields
        refine ⟨f, rfl, hpermitted f List.mem_cons_self, (hrest _).mpr ⟨fields, rfl,
          fun g hg => hpermitted g (List.mem_cons_of_mem _ hg), ?_⟩⟩
        cases hhost : f.isHost with
        | true => simp [hhost]
        | false => simp [hhost]

/-! ## Messages -/

theorem encodeAscii_of_decodeAscii {bytes : List UInt8} {s : Text}
    (h : decodeAscii bytes = some s) : encodeAscii s = bytes := by
  unfold decodeAscii at h
  rw [Option.ite_none_right_eq_some, Option.some.injEq] at h
  obtain ⟨hall, rfl⟩ := h
  rw [encodeAscii, List.map_map]
  refine (List.map_congr_left ?_).trans (List.map_id bytes)
  intro b hb
  have hbound : b.toNat < 128 := of_decide_eq_true (List.all_eq_true.mp hall b hb)
  rw [Function.comp_apply, Char.toNat_ofNat, if_pos (Or.inl (by omega)), UInt8.ofNat_toNat]
  rfl

theorem split_requestLine {target : Text} (h : ' ' ∉ target) :
    split ' ' (requestLine target) = ["CONNECT".toList, target, "HTTP/1.1".toList] := by
  refine Web.split_joinWith (by simp) ?_
  intro part hpart
  simp only [List.mem_cons, List.not_mem_nil, or_false] at hpart
  obtain rfl | rfl | rfl := hpart
  · simp
  · exact h
  · simp

namespace Message

theorem unbroken_lines (m : Message) : ∀ line ∈ m.lines, hasCrlf line = false := by
  intro line hline
  obtain rfl | hline := List.mem_cons.mp hline
  · exact m.unbroken
  · obtain ⟨f, -, rfl⟩ := List.mem_map.mp hline
    exact f.unbroken

theorem splitCrlf_lines (m : Message) : splitCrlf (joinWith ['\r', '\n'] m.lines) = m.lines :=
  Web.splitCrlf_joinWith (List.cons_ne_nil _ _) m.unbroken_lines

theorem field_injective {f g : Field} (h : f.line = g.line) : f = g := by
  have hparts := congrArg (partition ':') h
  rw [f.partition_line, g.partition_line] at hparts
  cases f
  cases g
  simpa using hparts

/-- A request is one message only. -/
theorem text_injective {m m' : Message} (h : m.text = m'.text) : m = m' := by
  have hlines := congrArg splitCrlf (List.append_cancel_right h)
  rw [m.splitCrlf_lines, m'.splitCrlf_lines] at hlines
  obtain ⟨hfirst, hfields⟩ := List.cons.inj hlines
  have htarget := congrArg (split ' ') hfirst
  rw [split_requestLine m.spaceless, split_requestLine m'.spaceless] at htarget
  have hfields := List.map_injective_iff.mpr (fun f g => field_injective) hfields
  cases m
  cases m'
  simp_all

/-- The ports are short enough for `int`. -/
def Short (m : Message) : Prop :=
  portDigits m.target ≤ maxStrDigits ∧
    ∀ f ∈ m.fields.filter Field.isHost, portDigits (Corpus.trim f.value) ≤ maxStrDigits

end Message

theorem checkHeaders_eq_ok {host canonical : Text} {port port' : ℕ} {lines : List Text} :
    checkHeaders tables allowedPorts host port lines = .ok (canonical, port') ↔
      ∃ value, readHeaders [] lines = .ok [value] ∧
        parseHostHeader tables allowedPorts value port = .ok (host, port) ∧
        (canonical, port') = (host, port) := by
  unfold checkHeaders
  cases hread : readHeaders [] lines with
  | error failure => simp [bind, Except.bind]
  | ok values =>
    match values with
    | [] => simp [bind, Except.bind, refuse]
    | _ :: _ :: _ => simp [bind, Except.bind, refuse]
    | [value] =>
      cases hheader : parseHostHeader tables allowedPorts value port with
      | error failure => simp [bind, Except.bind, hheader]
      | ok header =>
        by_cases heq : header = (host, port)
        · simp [bind, Except.bind, pure, Except.pure, hheader, heq, eq_comm]
        · simp [bind, Except.bind, refuse, hheader, heq]

/-- The lines of a message, in bytes, in front of the blank line. -/
theorem bytes_of_text {block : Text} :
    encodeAscii (block ++ "\r\n\r\n".toList) = encodeAscii block ++ [13, 10, 13, 10] := by
  have hend : encodeAscii "\r\n\r\n".toList = [13, 10, 13, 10] := by decide
  rw [Web.encodeAscii_append, hend]

/-- The request is a block of lines and a blank line. -/
theorem parseConnect_block {request : List UInt8} {result : Text × ℕ} :
    parseConnect tables allowedPorts request = .ok result ↔
      ∃ block : Text, request.length ≤ maxConnectHeaderBytes ∧ (∀ c ∈ block, c.toNat < 128) ∧
        request = encodeAscii block ++ [13, 10, 13, 10] ∧
        parseLines tables allowedPorts (splitCrlf block) = .ok result := by
  unfold parseConnect
  constructor
  · intro h
    split at h
    · cases h
    · next hframe =>
      simp only [Bool.or_eq_true, decide_eq_true_eq, Bool.not_eq_true', not_or, not_lt,
        Bool.not_eq_false, List.isSuffixOf_iff_suffix] at hframe
      obtain ⟨hsize, front, rfl⟩ := hframe
      have htake : (front ++ [13, 10, 13, 10]).take ((front ++ [13, 10, 13, 10]).length - 4) =
          front := by simp
      rw [htake] at h
      cases hdecode : decodeAscii front with
      | none =>
        rw [hdecode] at h
        cases h
      | some block =>
        rw [hdecode] at h
        refine ⟨block, hsize, Web.isAscii_of_decodeAscii hdecode, ?_, h⟩
        rw [encodeAscii_of_decodeAscii hdecode]
  · rintro ⟨block, hsize, hascii, rfl, h⟩
    have htake : (encodeAscii block ++ [13, 10, 13, 10]).take
        ((encodeAscii block ++ [13, 10, 13, 10]).length - 4) = encodeAscii block := by simp
    have hsuffix : List.isSuffixOf [13, 10, 13, 10] (encodeAscii block ++ [13, 10, 13, 10]) =
        true := List.isSuffixOf_iff_suffix.mpr (List.suffix_append _ _)
    rw [if_neg (by simp only [hsuffix]; simpa using hsize), htake,
      Web.decodeAscii_encodeAscii hascii]
    exact h

theorem requestLine_ne_nil (target : Text) : requestLine target ≠ [] := by
  intro h
  simp [requestLine, joinWith] at h

/-- A request line that is read is the one of an authority. -/
theorem parseLines_ok {lines : List Text} {result : Text × ℕ} :
    parseLines tables allowedPorts lines = .ok result ↔
      ∃ target host port rest, lines = requestLine target :: rest ∧ ' ' ∉ target ∧
        parseAuthority tables allowedPorts target = .ok (host, port) ∧
        checkHeaders tables allowedPorts host port rest = .ok result := by
  constructor
  · intro h
    unfold parseLines at h
    split at h
    · cases h
    · cases h
    · next first rest hfirst =>
      split at h
      · next method target version hsplit =>
        split at h
        · cases h
        · next hwords =>
          simp only [ne_eq, decide_not, Bool.or_eq_true, Bool.not_eq_true', decide_eq_false_iff_not,
            not_or, not_not] at hwords
          obtain ⟨rfl, rfl⟩ := hwords
          have hline : first = requestLine target := by
            rw [requestLine, ← hsplit, Web.joinWith_split]
          have hspace : ' ' ∉ target :=
            Web.not_mem_of_mem_split (s := first) (by rw [hsplit]; simp)
          cases hauthority : parseAuthority tables allowedPorts target with
          | error failure =>
            rw [hauthority] at h
            cases h
          | ok authority =>
            rw [hauthority] at h
            exact ⟨target, authority.1, authority.2, rest, by rw [hline], hspace, hauthority, h⟩
      · cases h
  · rintro ⟨target, host, port, rest, rfl, hspace, hauthority, h⟩
    have hsplit := split_requestLine hspace
    obtain ⟨c, first, hfirst⟩ := List.exists_cons_of_ne_nil (requestLine_ne_nil target)
    rw [hfirst] at hsplit ⊢
    simp only [parseLines, hsplit]
    rw [if_neg (by simp), hauthority]
    exact h

/-- What the lines say. -/
theorem parseLines_eq_ok {lines : List Text} {host : Text} {port : ℕ}
    (hlines : ∀ line ∈ lines, hasCrlf line = false)
    (hascii : ∀ line ∈ lines, ∀ c ∈ line, c.toNat < 128) :
    parseLines tables allowedPorts lines = .ok (host, port) ↔
      ∃ m : Message, lines = m.lines ∧ m.Sound tables allowedPorts host port ∧ m.Short := by
  rw [parseLines_ok]
  constructor
  · rintro ⟨target, name, number, rest, rfl, hspace, hauthority, hcheck⟩
    obtain ⟨value, hread, hheader, heq⟩ := checkHeaders_eq_ok.mp hcheck
    obtain ⟨rfl, rfl⟩ := Prod.mk.inj heq
    obtain ⟨fields, rfl, hpermitted, hvalues⟩ := (readHeaders_eq_ok
      (fun line hmem => hlines line (List.mem_cons_of_mem _ hmem))
      fun line hmem => hascii line (List.mem_cons_of_mem _ hmem)).mp hread
    obtain ⟨f, hhosts, rfl⟩ := List.map_eq_singleton_iff.mp hvalues.symm
    obtain ⟨htarget, hdigits⟩ := parseAuthority_eq_ok.mp hauthority
    obtain ⟨hvalue, hdigits'⟩ := parseHostHeader_eq_ok.mp hheader
    let m : Message := ⟨target, fields, hspace, hlines _ List.mem_cons_self⟩
    refine ⟨m, rfl, ⟨htarget, hpermitted, f, hhosts, hvalue⟩, hdigits, ?_⟩
    intro g hg
    have hg : g ∈ [f] := hhosts ▸ hg
    rw [List.mem_singleton.mp hg]
    exact hdigits'
  · rintro ⟨m, rfl, hsound, htarget, hshort⟩
    obtain ⟨f, hhosts, hvalue⟩ := hsound.host
    have hread : readHeaders [] (m.fields.map Field.line) = .ok [Corpus.trim f.value] :=
      (readHeaders_eq_ok (fun line hmem => hlines line (List.mem_cons_of_mem _ hmem))
        fun line hmem => hascii line (List.mem_cons_of_mem _ hmem)).mpr
        ⟨m.fields, rfl, hsound.permitted, by rw [hhosts]; rfl⟩
    have hf : f ∈ m.fields.filter Field.isHost := by
      rw [hhosts]
      exact List.mem_singleton_self f
    have hheader := parseHostHeader_eq_ok.mpr ⟨hvalue, hshort f hf⟩
    exact ⟨m.target, host, port, _, rfl, m.spaceless,
      parseAuthority_eq_ok.mpr ⟨hsound.target, htarget⟩,
      checkHeaders_eq_ok.mpr ⟨_, hread, hheader, rfl⟩⟩

theorem mem_joinWith_line {separator : Text} {lines : List Text} {line : Text} (h : line ∈ lines)
    {c : Char} (hc : c ∈ line) : c ∈ joinWith separator lines := by
  induction lines with
  | nil => cases h
  | cons first rest ih =>
    cases rest with
    | nil =>
      obtain rfl := List.mem_singleton.mp h
      exact hc
    | cons next rest =>
      rw [Web.joinWith_cons _ _ (List.cons_ne_nil _ _), List.mem_append]
      obtain rfl | h := List.mem_cons.mp h
      · exact .inl (List.mem_append_left _ hc)
      · exact .inr (ih h)

/-- What is accepted: messages that are sound, with ports `int` reads. -/
theorem parseConnect_eq_ok {request : List UInt8} {host : Text} {port : ℕ} :
    parseConnect tables allowedPorts request = .ok (host, port) ↔
      ∃ m, Reads tables allowedPorts request m host port ∧ m.Short := by
  have hblank : ∀ c ∈ "\r\n\r\n".toList, c.toNat < 128 := by
    have hall : "\r\n\r\n".toList.all (fun c => decide (c.toNat < 128)) = true := by decide
    exact fun c hc => of_decide_eq_true (List.all_eq_true.mp hall c hc)
  rw [parseConnect_block]
  constructor
  · rintro ⟨block, hsize, hascii, rfl, h⟩
    have hwhole := Web.joinWith_splitCrlf block
    obtain ⟨m, hlines, hsound, hshort⟩ := (parseLines_eq_ok
      (fun line hline => Web.hasCrlf_of_mem_splitCrlf hline)
      fun line hline c hc => hascii c (hwhole ▸ mem_joinWith_line hline hc)).mp h
    have hblock : joinWith ['\r', '\n'] m.lines = block := by rw [← hlines, hwhole]
    refine ⟨m, ⟨hsize, ?_, ?_, hsound⟩, hshort⟩
    · intro c hc
      rw [Message.text, hblock] at hc
      exact (List.mem_append.mp hc).elim (hascii c) (hblank c)
    · rw [Message.text, hblock, bytes_of_text]
  · rintro ⟨m, ⟨hsize, hascii, rfl, hsound⟩, hshort⟩
    have hlines : ∀ c ∈ joinWith ['\r', '\n'] m.lines, c.toNat < 128 :=
      fun c hc => hascii c (List.mem_append_left _ hc)
    refine ⟨joinWith ['\r', '\n'] m.lines, hsize, hlines, bytes_of_text, ?_⟩
    rw [m.splitCrlf_lines]
    exact (parseLines_eq_ok m.unbroken_lines
      fun line hline c hc => hlines c (mem_joinWith_line hline hc)).mpr ⟨m, rfl, hsound, hshort⟩

/-! ## Written hosts -/

theorem length_joinWith_le (c : Char) {parts : List Text} {size : ℕ}
    (h : ∀ part ∈ parts, part.length ≤ size) :
    (joinWith [c] parts).length ≤ parts.length * (size + 1) := by
  induction parts with
  | nil => simp [joinWith]
  | cons part rest ih =>
    have hpart := h part List.mem_cons_self
    have hrest := ih fun part hmem => h part (List.mem_cons_of_mem _ hmem)
    cases rest with
    | nil =>
      simp only [joinWith, List.length_cons, List.length_nil]
      omega
    | cons next rest =>
      rw [Web.joinWith_cons _ _ (List.cons_ne_nil _ _)]
      simp only [List.length_append, List.length_cons, List.length_nil] at hrest ⊢
      have hexpand : (rest.length + 1 + 1) * (size + 1) =
          (rest.length + 1) * (size + 1) + (size + 1) := Nat.succ_mul _ _
      omega

theorem nil_or_mem_of_compressHextets {l : List ℕ} {part : Text}
    (h : part ∈ Inet.compressHextets l) : part = [] ∨ part ∈ l.map (Nat.toDigits 16) := by
  unfold Inet.compressHextets at h
  dsimp only at h
  split at h
  · simp only [List.mem_append, List.mem_ite_nil_right, List.mem_singleton] at h
    obtain (((⟨-, h⟩ | h) | h) | h) | ⟨-, h⟩ := h
    · exact .inl h
    · exact .inr (List.mem_of_mem_take h)
    · exact .inl h
    · exact .inr (List.mem_of_mem_drop h)
    · exact .inl h
  · exact .inr h

theorem length_compressHextets_le (l : List ℕ) :
    (Inet.compressHextets l).length ≤ 2 * l.length + 3 := by
  have hite : ∀ p : Prop, [Decidable p] → (if p then [[]] else [] : List Text).length ≤ 1 := by
    intro p hp
    split
    · rfl
    · exact Nat.zero_le 1
  unfold Inet.compressHextets
  dsimp only
  split
  · generalize Inet.longestRun 0 ⟨0, 0⟩ ⟨0, 0⟩ l = run
    have hfront := hite (run.start = 0)
    have hback := hite (run.start + run.length = l.length)
    simp only [List.length_append, List.length_take, List.length_drop, List.length_map,
      List.length_cons, List.length_nil]
    omega
  · rw [List.length_map]
    omega

theorem length_text_le (a : Address) : a.text.length ≤ 253 := by
  cases a with
  | v4 n =>
    have hoctets : ∀ part ∈ (Inet.octets n).map (Nat.toDigits 10), part.length ≤ 3 := by
      intro part hpart
      obtain ⟨k, hk, rfl⟩ := List.mem_map.mp hpart
      have hbound := Inet.octets_lt n k hk
      exact (Nat.length_toDigits_le_iff (by decide) (by decide)).mpr (by omega)
    have hparts := length_joinWith_le '.' hoctets
    have hlength : ((Inet.octets n).map (Nat.toDigits 10)).length = 4 := by simp [Inet.octets]
    rw [hlength] at hparts
    exact hparts.trans (by decide)
  | v6 n =>
    have hhextets : ∀ part ∈ Inet.compressHextets (Inet.hextets n), part.length ≤ 4 := by
      intro part hpart
      obtain rfl | hpart := nil_or_mem_of_compressHextets hpart
      · exact Nat.zero_le 4
      · obtain ⟨k, hk, rfl⟩ := List.mem_map.mp hpart
        have hbound := Inet.hextets_lt n k hk
        exact (Nat.length_toDigits_le_iff (by decide) (by decide)).mpr (by omega)
    have hparts := length_joinWith_le ':' hhextets
    have hlength : (Inet.compressHextets (Inet.hextets n)).length ≤ 19 :=
      length_compressHextets_le _
    refine hparts.trans ?_
    omega

/-- A character of an authority: ASCII, and not white space. -/
def Visible (c : Char) : Prop := 33 ≤ c.toNat ∧ c.toNat < 128

theorem isAlphanum_toLower {c : Char} (h : c.isAlphanum = true) : c.toLower.isAlphanum = true := by
  rw [Char.isAlphanum, Bool.or_eq_true] at h ⊢
  by_cases hupper : c.isUpper = true
  · left
    rw [Char.isAlpha_toLower_eq_isAlpha, Char.isAlpha, hupper, Bool.true_or]
  · rwa [Char.toLower_eq_of_not_isUpper hupper]

/-- Only letters become letters. -/
theorem toLower_eq_self {c : Char} (h : c.toLower.isAlpha = false) : c.toLower = c := by
  apply Char.toLower_eq_of_not_isUpper
  intro hupper
  rw [Char.isAlpha_toLower_eq_isAlpha, Char.isAlpha, hupper, Bool.true_or] at h
  cases h

theorem toLower_eq_dot {c : Char} : c.toLower = '.' ↔ c = '.' := by
  constructor
  · intro h
    rw [← toLower_eq_self (c := c) (by rw [h]; decide), h]
  · rintro rfl
    rfl

theorem split_toLower (host : Text) :
    split '.' (host.map Char.toLower) = (split '.' host).map (List.map Char.toLower) := by
  induction host with
  | nil => rfl
  | cons c host ih =>
    rw [List.map_cons, split, split, ih]
    by_cases hdot : c = '.'
    · rw [if_pos (toLower_eq_dot.mpr hdot), if_pos hdot]
      rfl
    · rw [if_neg (fun h => hdot (toLower_eq_dot.mp h)), if_neg hdot]
      cases split '.' host with
      | nil => rfl
      | cons part parts => rfl

theorem IsLabel.lower {label : Text} (h : IsLabel label) : IsLabel (label.map Char.toLower) := by
  obtain ⟨first, hfirst, hfirst'⟩ := h.first
  obtain ⟨last, hlast, hlast'⟩ := h.last
  refine ⟨by simpa using h.size, ⟨first.toLower, by simp [hfirst], isAlphanum_toLower hfirst'⟩,
    ⟨last.toLower, by simp [hlast], isAlphanum_toLower hlast'⟩, ?_⟩
  intro c hc
  obtain ⟨d, hd, rfl⟩ := List.mem_map.mp hc
  obtain halnum | rfl := h.chars d hd
  · exact .inl (isAlphanum_toLower halnum)
  · exact .inr rfl

theorem IsName.lower {host : Text} (h : IsName tables host)
    (hdecodes : (decodeIdna tables (host.map Char.toLower)).isSome = true) :
    IsName tables (host.map Char.toLower) := by
  refine ⟨fun label hlabel => ?_, hdecodes⟩
  rw [split_toLower] at hlabel
  obtain ⟨written, hwritten, rfl⟩ := List.mem_map.mp hlabel
  exact (h.labels written hwritten).lower

/-- What a host stands for is visible. -/
theorem Denotes.visible {bracketed : Bool} {host canonical : Text}
    (h : Denotes tables bracketed host canonical) : ∀ c ∈ canonical, Visible c := by
  intro c hc
  have haddress : ∀ a : Address, c ∈ a.text → Visible c := by
    intro a ha
    have hbounds := Inet.toNat_of_mem_text ha
    exact ⟨by omega, by omega⟩
  cases h with
  | v6 hparse => exact haddress _ hc
  | v4 hparse => exact haddress _ hc
  | name hname _ =>
    obtain ⟨d, hd, rfl⟩ := List.mem_map.mp hc
    obtain halnum | rfl | rfl := hname.mem hd
    · have hbounds := toNat_of_alphanum (isAlphanum_toLower halnum)
      exact ⟨by omega, by omega⟩
    · exact ⟨by decide, by decide⟩
    · exact ⟨by decide, by decide⟩

theorem parse4_lower {host : Text} (h : parse4 host = none) :
    parse4 (host.map Char.toLower) = none := by
  cases hparse : parse4 (host.map Char.toLower) with
  | none => rfl
  | some n =>
    have hsame : host.map Char.toLower = host := by
      refine (List.map_congr_left ?_).trans (List.map_id host)
      intro c hc
      have hletter : c.toLower.isAlpha = false := by
        obtain hdigit | hdot := Inet.mem_of_parse4 hparse (List.mem_map_of_mem hc)
        · simp only [isDigit, Bool.and_eq_true, decide_eq_true_eq, Char.le_def,
            UInt32.le_iff_toNat_le] at hdigit
          have hnine : '9'.val.toNat = 57 := rfl
          simp only [Char.isAlpha, Char.isUpper, Char.isLower, Bool.or_eq_false_iff,
            Bool.and_eq_false_iff, decide_eq_false_iff_not, ge_iff_le, UInt32.le_iff_toNat_le]
          have hA : 'A'.val.toNat = 65 := rfl
          have ha : 'a'.val.toNat = 97 := rfl
          omega
        · rw [hdot]
          decide
      exact toLower_eq_self hletter
    rw [hsame, h] at hparse
    cases hparse

/-- The marks are no characters of what a host stands for. -/
theorem Denotes.marks {bracketed : Bool} {host canonical : Text}
    (h : Denotes tables bracketed host canonical) :
    ∀ c ∈ canonical, c ∉ ['%', '/', '?', '#', '@'] := by
  intro c hc hmark
  have hshape : c.isAlphanum = false ∧ c ≠ '-' ∧ c ≠ '.' ∧ c ≠ ':' ∧
      Inet.isGroupChar c = false := by
    simp only [List.mem_cons, List.not_mem_nil, or_false] at hmark
    obtain rfl | rfl | rfl | rfl | rfl := hmark <;> decide
  obtain ⟨halnum, hhyphen, hdot, hcolon, hgroup⟩ := hshape
  have haddress : ∀ a : Address, c ∉ a.text := by
    intro a ha
    obtain rfl | rfl | h := Normalize.mem_text ha
    · exact hdot rfl
    · exact hcolon rfl
    · rw [hgroup] at h
      cases h
  cases h with
  | v6 hparse => exact haddress _ hc
  | v4 hparse => exact haddress _ hc
  | name hname _ =>
    obtain ⟨d, hd, rfl⟩ := List.mem_map.mp hc
    obtain hd | rfl | rfl := hname.mem hd
    · rw [isAlphanum_toLower hd] at halnum
      cases halnum
    · exact hhyphen rfl
    · exact hdot rfl

theorem parse6_text (n : Fin (2 ^ 128)) : parse6 (Address.v6 n).text = some n := by
  have hread := Inet.parse_text (.v6 n)
  rw [Inet.parse, Inet.parse4_text6] at hread
  obtain ⟨k, hk, hkn⟩ := Option.map_eq_some_iff.mp hread
  rw [hk, Address.v6.inj hkn]

/-- What a host stands for is a host that stands for itself. -/
theorem IsHost.canonical {bracketed : Bool} {host canonical : Text}
    (h : IsHost tables bracketed host canonical)
    (hdecodes : IsName tables host → parse4 host = none →
      (decodeIdna tables (host.map Char.toLower)).isSome = true) :
    IsHost tables bracketed canonical canonical := by
  have hmarks := h.denotes.marks
  cases h.denotes with
  | @v6 _ n hparse => exact ⟨length_text_le _, hmarks, .v6 (parse6_text n)⟩
  | @v4 _ n hparse => exact ⟨length_text_le _, hmarks, .v4 (Inet.parse4_text n)⟩
  | name hname hparse =>
    have hsame : (host.map Char.toLower).map Char.toLower = host.map Char.toLower := by
      rw [List.map_map]
      exact List.map_congr_left fun c _ => Char.toLower_toLower_eq_toLower c
    have hdenotes := Denotes.name (hname.lower (hdecodes hname hparse)) (parse4_lower hparse)
    rw [hsame] at hdenotes
    exact ⟨by simpa using h.size, hmarks, hdenotes⟩

/-- Only an IPv6 address has a colon. -/
theorem IsHost.serialized {bracketed : Bool} {host canonical : Text}
    (h : IsHost tables bracketed host canonical) :
    Normalize.serializedHost canonical = bracket bracketed canonical := by
  have hcolon : canonical.contains ':' = bracketed := by
    cases h.denotes with
    | @v6 _ n hparse =>
      exact List.contains_iff_mem.mpr (Normalize.colon_of_parse6 (parse6_text n))
    | @v4 _ n hparse =>
      rw [← Bool.not_eq_true, List.contains_iff_mem]
      intro hmem
      exact absurd (Inet.mem_of_parse4 (Inet.parse4_text n) hmem) (by decide)
    | name hname hparse =>
      rw [← Bool.not_eq_true, List.contains_iff_mem]
      intro hmem
      obtain ⟨d, hd, hlower⟩ := List.mem_map.mp hmem
      rw [← toLower_eq_self (c := d) (by rw [hlower]; decide), hlower] at hd
      exact hname.not_mem (by decide) hd
  rw [Normalize.serializedHost, bracket, hcolon]

/-! ## Written requests -/

theorem ofDigitChars_lt {digits : Text} (h : ∀ c ∈ digits, isDigit c = true) {n k : ℕ}
    (hn : n < 10 ^ k) : Nat.ofDigitChars 10 digits n < 10 ^ (k + digits.length) := by
  induction digits generalizing n k with
  | nil => simpa using hn
  | cons c digits ih =>
    have hdigit := h c List.mem_cons_self
    have hstep : 10 * n + (c.toNat - '0'.toNat) < 10 ^ (k + 1) := by
      simp only [isDigit, Bool.and_eq_true, decide_eq_true_eq, Char.le_def,
        UInt32.le_iff_toNat_le] at hdigit
      have hnine : '9'.val.toNat = 57 := rfl
      have hzero : '0'.toNat = 48 := rfl
      have hval : c.toNat = c.val.toNat := rfl
      rw [Nat.pow_succ]
      omega
    have hrest := ih (fun d hd => h d (List.mem_cons_of_mem c hd)) hstep
    rw [Nat.ofDigitChars_cons, List.length_cons]
    rwa [Nat.add_assoc, Nat.add_comm 1] at hrest

/-- The number of a port is written with no more digits. -/
theorem IsPort.written {digits : Text} {port : ℕ} (h : IsPort allowedPorts digits port) :
    IsPort allowedPorts (Nat.toDigits 10 port) port ∧
      (Nat.toDigits 10 port).length ≤ digits.length := by
  refine ⟨⟨Nat.toDigits_ne_nil, ?_, Nat.ofDigitChars_ten_toDigits, h.allowed⟩, ?_⟩
  · exact Inet.forall_mem_toDigits (by decide) Inet.isDigit_digitChar port
  · rw [Nat.length_toDigits_le_iff (by decide) (List.length_pos_of_ne_nil h.nonempty), ← h.value]
    simpa using ofDigitChars_lt h.decimal (n := 0) (k := 0) (by decide)

/-- The authority that is written for a host and a port. -/
def writtenAuthority (host : Text) (port : ℕ) : Text :=
  Normalize.serializedHost host ++ ':' :: Nat.toDigits 10 port

theorem visible_of_isDigit {c : Char} (h : isDigit c = true) : Visible c := by
  simp only [isDigit, Bool.and_eq_true, decide_eq_true_eq, Char.le_def,
    UInt32.le_iff_toNat_le] at h
  have hnine : '9'.val.toNat = 57 := rfl
  have hzero : '0'.val.toNat = 48 := rfl
  have hval : c.toNat = c.val.toNat := rfl
  exact ⟨by omega, by omega⟩

theorem visible_writtenAuthority {bracketed : Bool} {host canonical : Text} (port : ℕ)
    (h : IsHost tables bracketed host canonical) :
    ∀ c ∈ writtenAuthority canonical port, Visible c := by
  intro c hc
  have hdigits : ∀ c ∈ Nat.toDigits 10 port, Visible c := fun c hc =>
    visible_of_isDigit (Inet.forall_mem_toDigits (P := fun c => isDigit c = true) (by decide)
      Inet.isDigit_digitChar port c hc)
  have hhost := h.denotes.visible
  have hopen : Visible '[' := ⟨by decide, by decide⟩
  have hclose : Visible ']' := ⟨by decide, by decide⟩
  have hcolon : Visible ':' := ⟨by decide, by decide⟩
  rw [writtenAuthority, h.serialized, bracket] at hc
  cases bracketed with
  | true =>
    simp only [if_true, List.cons_append, List.append_assoc, List.mem_cons, List.mem_append,
      List.not_mem_nil, false_or] at hc
    obtain rfl | hc | rfl | rfl | hc := hc
    · exact hopen
    · exact hhost c hc
    · exact hclose
    · exact hcolon
    · exact hdigits c hc
  | false =>
    simp only [Bool.false_eq_true, if_false, List.mem_append, List.mem_cons] at hc
    obtain hc | rfl | hc := hc
    · exact hhost c hc
    · exact hcolon
    · exact hdigits c hc

theorem not_mem_of_visible {s : Text} (h : ∀ c ∈ s, Visible c) {c : Char} (hc : c.toNat < 33) :
    c ∉ s := fun hmem => absurd (h c hmem).1 (by omega)

/-- The `Host` field of a written request. -/
def hostField (authority : Text) (h : ∀ c ∈ authority, Visible c) : Field where
  name := "Host".toList
  value := ' ' :: authority
  named := by simp
  colon := by simp
  unbroken := by
    apply Web.hasCrlf_of_not_mem
    have hreturn := not_mem_of_visible h (c := '\r') (by decide)
    simp [hreturn]

/-- A written request, in its parts. -/
def writtenMessage (authority : Text) (h : ∀ c ∈ authority, Visible c) : Message where
  target := authority
  fields := [hostField authority h]
  spaceless := not_mem_of_visible h (by decide)
  unbroken := by
    apply Web.hasCrlf_of_not_mem
    have hreturn := not_mem_of_visible h (c := '\r') (by decide)
    simp [requestLine, joinWith, hreturn]

theorem text_writtenMessage {authority : Text} (h : ∀ c ∈ authority, Visible c) :
    (writtenMessage authority h).text = "CONNECT ".toList ++ authority ++
      " HTTP/1.1\r\nHost: ".toList ++ authority ++ "\r\n\r\n".toList := by
  have hmethod : "CONNECT ".toList = "CONNECT".toList ++ [' '] := by decide
  have hmiddle : " HTTP/1.1\r\nHost: ".toList =
      [' '] ++ "HTTP/1.1".toList ++ ['\r', '\n'] ++ ("Host".toList ++ [':', ' ']) := by
    decide
  have htext : (writtenMessage authority h).text =
      "CONNECT".toList ++ [' '] ++ (authority ++ [' '] ++ "HTTP/1.1".toList) ++ ['\r', '\n'] ++
        ("Host".toList ++ ':' :: ' ' :: authority) ++ "\r\n\r\n".toList := rfl
  rw [htext, hmethod, hmiddle]
  simp only [List.append_assoc, List.cons_append, List.nil_append]

theorem connectRequest_eq {host : Text} {port : ℕ}
    (h : ∀ c ∈ writtenAuthority host port, Visible c) :
    connectRequest host port = encodeAscii (writtenMessage _ h).text := by
  rw [text_writtenMessage]
  rfl

theorem ascii_writtenMessage {authority : Text} (h : ∀ c ∈ authority, Visible c) :
    ∀ c ∈ (writtenMessage authority h).text, c.toNat < 128 := by
  have hliteral : ("CONNECT ".toList ++ " HTTP/1.1\r\nHost: ".toList ++ "\r\n\r\n".toList).all
      (fun c => decide (c.toNat < 128)) = true := by decide
  simp only [List.all_append, Bool.and_eq_true, List.all_eq_true, decide_eq_true_eq] at hliteral
  intro c hc
  rw [text_writtenMessage] at hc
  simp only [List.mem_append] at hc
  obtain (((hc | hc) | hc) | hc) | hc := hc
  · exact hliteral.1.1 c hc
  · exact (h c hc).2
  · exact hliteral.1.2 c hc
  · exact (h c hc).2
  · exact hliteral.2 c hc

theorem length_connectRequest (host : Text) (port : ℕ) :
    (connectRequest host port).length = 2 * (writtenAuthority host port).length + 29 := by
  have hmethod : "CONNECT ".toList.length = 8 := by decide
  have hmiddle : " HTTP/1.1\r\nHost: ".toList.length = 17 := by decide
  have hend : "\r\n\r\n".toList.length = 4 := by decide
  show (encodeAscii ("CONNECT ".toList ++ writtenAuthority host port ++
    " HTTP/1.1\r\nHost: ".toList ++ writtenAuthority host port ++ "\r\n\r\n".toList)).length = _
  simp only [encodeAscii, List.length_map, List.length_append, hmethod, hmiddle, hend]
  omega

theorem trim_hostField {authority : Text} (h : ∀ c ∈ authority, Visible c) :
    Corpus.trim (hostField authority h).value = authority := by
  refine trim_space fun c hc => ?_
  obtain ⟨hlow, hhigh⟩ := h c hc
  simp only [Corpus.isSpace]
  grind

theorem lowered_hostField {authority : Text} (h : ∀ c ∈ authority, Visible c) :
    (hostField authority h).lowered = "host".toList := by
  have hname : "Host".toList.map Char.toLower = "host".toList := by decide
  exact hname

theorem filter_hostField {authority : Text} (h : ∀ c ∈ authority, Visible c) :
    (writtenMessage authority h).fields.filter Field.isHost = [hostField authority h] := by
  have hhost : (hostField authority h).isHost = true := decide_eq_true (lowered_hostField h)
  exact List.filter_eq_self.mpr fun f hf => by rw [List.mem_singleton.mp hf, hhost]

theorem permitted_hostField {authority : Text} (h : ∀ c ∈ authority, Visible c) :
    (hostField authority h).Permitted := by
  have hlowered := lowered_hostField h
  constructor
  · rw [hlowered]
    decide
  · rw [hlowered]
    decide
  · rw [hlowered]
    decide

/-- The written request asks for the host and the port, where the host is one. -/
theorem sound_writtenMessage {bracketed : Bool} {canonical digits : Text} {port : ℕ}
    (hhost : IsHost tables bracketed canonical canonical) (hport : IsPort allowedPorts digits port)
    (h : ∀ c ∈ writtenAuthority canonical port, Visible c) :
    (writtenMessage _ h).Sound tables allowedPorts canonical port := by
  have hauthority : IsAuthority tables allowedPorts (writtenAuthority canonical port) canonical port :=
    ⟨bracketed, canonical, Nat.toDigits 10 port, by rw [writtenAuthority, hhost.serialized], hhost,
      hport.written.1⟩
  refine ⟨hauthority, ?_, hostField _ h, filter_hostField h, .inr ?_⟩
  · intro f hf
    rw [List.mem_singleton.mp hf]
    exact permitted_hostField h
  · rw [trim_hostField]
    exact hauthority

theorem portDigits_writtenAuthority {digits : Text} {port : ℕ} (host : Text)
    (hport : IsPort allowedPorts digits port) (hsize : digits.length ≤ maxStrDigits) :
    portDigits (writtenAuthority host port) ≤ maxStrDigits := by
  obtain ⟨hwritten, hlength⟩ := hport.written
  rw [writtenAuthority, portDigits_append (colon_not_mem_digits hwritten)]
  exact hlength.trans hsize

theorem short_writtenMessage {authority : Text} (h : ∀ c ∈ authority, Visible c)
    (hsize : portDigits authority ≤ maxStrDigits) : (writtenMessage authority h).Short := by
  refine ⟨hsize, fun f hf => ?_⟩
  rw [filter_hostField] at hf
  rw [List.mem_singleton.mp hf, trim_hostField]
  exact hsize

/-- The name of the host is valid in lower case too. -/
def Message.Lowers (tables : IdnaTables) (m : Message) : Prop :=
  ∀ host digits, m.target = host ++ ':' :: digits → IsName tables host → parse4 host = none →
    (decodeIdna tables (host.map Char.toLower)).isSome = true

theorem IsHost.name_of_parse4 {host canonical : Text} (h : IsHost tables false host canonical)
    (hfour : parse4 host = none) : IsName tables host ∧ canonical = host.map Char.toLower := by
  generalize hbracketed : false = bracketed at h
  obtain ⟨-, -, hdenotes⟩ := h
  cases hdenotes with
  | v6 hparse => cases hbracketed
  | v4 hparse =>
    rw [hfour] at hparse
    cases hparse
  | name hname _ => exact ⟨hname, rfl⟩

/-- An authority without brackets has one host. -/
theorem isAuthority_plain {host digits canonical : Text} {port : ℕ} (hcolon : ':' ∉ host)
    (hopen : '[' ∉ host)
    (h : IsAuthority tables allowedPorts (host ++ ':' :: digits) canonical port) :
    IsHost tables false host canonical ∧ IsPort allowedPorts digits port := by
  obtain ⟨bracketed, host', digits', hsame, hhost, hport⟩ := h
  cases bracketed with
  | true =>
    cases host with
    | nil => cases hsame
    | cons c host =>
      obtain ⟨rfl, -⟩ := List.cons.inj hsame
      exact absurd List.mem_cons_self hopen
  | false =>
    have hparts := congrArg (partition ':') hsame
    rw [Web.partition_append hcolon, bracket_false,
      Web.partition_append (hhost.not_mem (by decide) (by decide))] at hparts
    simp only [Prod.mk.injEq, true_and] at hparts
    obtain ⟨rfl, rfl⟩ := hparts
    exact ⟨hhost, hport⟩

/-- The request written for what was read is read in the same way, where the name is
valid in lower case. -/
theorem parseConnect_connectRequest {request : List UInt8} {m : Message} {canonical : Text}
    {port : ℕ} (h : Reads tables allowedPorts request m canonical port) (hshort : m.Short) :
    parseConnect tables allowedPorts (connectRequest canonical port) = .ok (canonical, port) ↔
      m.Lowers tables := by
  obtain ⟨bracketed, host, digits, htarget, hhost, hport⟩ := h.sound.target
  have hvisible := visible_writtenAuthority port hhost
  constructor
  · intro hparse name digits' hname hvalid hfour
    obtain ⟨m', hreads, -⟩ := parseConnect_eq_ok.mp hparse
    have hsame : m' = writtenMessage _ hvisible := by
      apply Message.text_injective
      have hbytes := hreads.bytes.symm.trans (connectRequest_eq hvisible)
      have hdecoded := congrArg decodeAscii hbytes
      rw [Web.decodeAscii_encodeAscii hreads.ascii,
        Web.decodeAscii_encodeAscii (ascii_writtenMessage hvisible)] at hdecoded
      exact Option.some.inj hdecoded
    subst hsame
    -- The host is the name, and what was written is its lower case.
    have hsound := h.sound.target
    rw [hname] at hsound
    obtain ⟨hplain, -⟩ := isAuthority_plain (hvalid.not_mem (by decide))
      (hvalid.not_mem (by decide)) hsound
    obtain ⟨-, rfl⟩ := hplain.name_of_parse4 hfour
    have hwritten := hreads.sound.target
    have hshape : (writtenMessage _ hvisible).target =
        name.map Char.toLower ++ ':' :: Nat.toDigits 10 port := by
      show writtenAuthority _ port = _
      rw [writtenAuthority, hplain.serialized, bracket_false]
    have hnot : ∀ c : Char, c.isAlpha = false → c.isAlphanum = false ∧ c ≠ '-' ∧ c ≠ '.' →
        c ∉ name.map Char.toLower := by
      intro c halpha hc hmem
      obtain ⟨d, hd, rfl⟩ := List.mem_map.mp hmem
      rw [toLower_eq_self halpha] at hc
      exact hvalid.not_mem hc hd
    rw [hshape] at hwritten
    obtain ⟨hlower, -⟩ := isAuthority_plain (hnot ':' (by decide) (by decide))
      (hnot '[' (by decide) (by decide)) hwritten
    exact (hlower.name_of_parse4 (parse4_lower hfour)).1.decodes
  · intro hlowers
    have hcanonical := hhost.canonical fun hname hfour => by
      cases bracketed with
      | true =>
        cases hhost.denotes with
        | v6 hparse =>
          exact absurd (Normalize.colon_of_parse6 hparse) (hname.not_mem (by decide))
      | false => exact hlowers host digits htarget hname hfour
    have hdigits : digits.length ≤ maxStrDigits := by
      have htargetShort := hshort.1
      rwa [htarget, portDigits_append (colon_not_mem_digits hport)] at htargetShort
    refine parseConnect_eq_ok.mpr ⟨writtenMessage _ hvisible, ⟨?_, ascii_writtenMessage hvisible,
      connectRequest_eq hvisible, sound_writtenMessage hcanonical hport hvisible⟩,
      short_writtenMessage hvisible (portDigits_writtenAuthority _ hport hdigits)⟩
    have hlength : (writtenAuthority canonical port).length ≤ 256 + digits.length := by
      have hbracket := length_bracket bracketed canonical
      have hsize := hcanonical.size
      have hwritten := hport.written.2
      rw [writtenAuthority, hhost.serialized]
      simp only [List.length_append, List.length_cons]
      omega
    rw [length_connectRequest]
    simp only [maxConnectHeaderBytes, maxStrDigits] at hdigits ⊢
    omega

/-! ## The grammar -/

/-- The parser accepts a request just as the grammar does, and reads what it writes for the
answer, exactly when this holds: if the request is sound, its fields are clean just if `int`
reads its ports, and then the name of its host is valid in lower case too. -/
theorem parseConnect_grammar_iff (valueChar : Char → Prop) (request : List UInt8) :
    (((∃ host port, parseConnect tables allowedPorts request = .ok (host, port)) ↔
        Grammar tables allowedPorts valueChar request) ∧
      ∀ host port, parseConnect tables allowedPorts request = .ok (host, port) →
        parseConnect tables allowedPorts (connectRequest host port) = .ok (host, port)) ↔
    ∀ m host port, Reads tables allowedPorts request m host port →
      ((∀ f ∈ m.fields, f.Clean valueChar) ↔ m.Short) ∧ (m.Short → m.Lowers tables) := by
  have hunique : ∀ {m m' : Message} {host host' : Text} {port port' : ℕ},
      Reads tables allowedPorts request m host port →
      Reads tables allowedPorts request m' host' port' → m = m' := by
    intro m m' host host' port port' h h'
    have hdecoded := congrArg decodeAscii (h.bytes.symm.trans h'.bytes)
    rw [Web.decodeAscii_encodeAscii h.ascii, Web.decodeAscii_encodeAscii h'.ascii] at hdecoded
    exact Message.text_injective (Option.some.inj hdecoded)
  constructor
  · rintro ⟨hgrammar, hround⟩ m host port hreads
    refine ⟨⟨fun hclean => ?_, fun hshort => ?_⟩, fun hshort => ?_⟩
    · obtain ⟨host', port', hok⟩ := hgrammar.mpr ⟨m, host, port, hreads, hclean⟩
      obtain ⟨m', hreads', hshort⟩ := parseConnect_eq_ok.mp hok
      rwa [hunique hreads hreads']
    · have hok := parseConnect_eq_ok.mpr ⟨m, hreads, hshort⟩
      obtain ⟨m', host', port', hreads', hclean⟩ := hgrammar.mp ⟨host, port, hok⟩
      rwa [hunique hreads hreads']
    · have hok := parseConnect_eq_ok.mpr ⟨m, hreads, hshort⟩
      exact (parseConnect_connectRequest hreads hshort).mp (hround host port hok)
  · intro hcondition
    refine ⟨⟨?_, ?_⟩, ?_⟩
    · rintro ⟨host, port, hok⟩
      obtain ⟨m, hreads, hshort⟩ := parseConnect_eq_ok.mp hok
      exact ⟨m, host, port, hreads, (hcondition m host port hreads).1.mpr hshort⟩
    · rintro ⟨m, host, port, hreads, hclean⟩
      exact ⟨host, port, parseConnect_eq_ok.mpr
        ⟨m, hreads, (hcondition m host port hreads).1.mp hclean⟩⟩
    · intro host port hok
      obtain ⟨m, hreads, hshort⟩ := parseConnect_eq_ok.mp hok
      exact (parseConnect_connectRequest hreads hshort).mpr
        ((hcondition m host port hreads).2 hshort)

/-! ## Disguised headers -/

/-- Tables without internationalized labels. -/
def asciiTables : IdnaTables where
  lower s := s.map Char.toLower
  casefold s := s.map Char.toLower
  nfkc s := s
  nameprep _ := none
  punycode _ := []
  unquotePlus s := s
  unpunycode _ := none

/-- A request with a space behind the name of its last header. -/
def disguised : List UInt8 :=
  encodeAscii "CONNECT a:443 HTTP/1.1\r\nHost: a:443\r\nTransfer-Encoding : chunked\r\n\r\n".toList

/-- It is accepted, though the name is no token and reads as a header of a body. -/
theorem disguised_header_accepted :
    ¬ ∀ request : List UInt8,
      ((∃ host port, parseConnect asciiTables [80, 443] request = .ok (host, port)) ↔
        Grammar asciiTables [80, 443] (fun _ => True) request) ∧
      ∀ host port, parseConnect asciiTables [80, 443] request = .ok (host, port) →
        parseConnect asciiTables [80, 443] (connectRequest host port) = .ok (host, port) := by
  intro h
  have hok : parseConnect asciiTables [80, 443] disguised = .ok (['a'], 443) := by decide
  obtain ⟨m, host, port, hreads, hclean⟩ := (h disguised).1.mp ⟨_, _, hok⟩
  have hdecoded := congrArg decodeAscii hreads.bytes
  rw [Web.decodeAscii_encodeAscii hreads.ascii] at hdecoded
  have hdisguised : decodeAscii disguised = some ("CONNECT a:443 HTTP/1.1".toList ++ ['\r', '\n'] ++
      ("Host: a:443".toList ++ ['\r', '\n'] ++ "Transfer-Encoding : chunked".toList) ++
      "\r\n\r\n".toList) := by decide
  have htext := Option.some.inj (hdisguised.symm.trans hdecoded)
  have hlines := congrArg splitCrlf (List.append_cancel_right htext)
  rw [m.splitCrlf_lines] at hlines
  have hthird : "Transfer-Encoding : chunked".toList ∈ m.lines := by
    rw [← hlines]
    decide
  obtain hfirst | hfield := List.mem_cons.mp hthird
  · have hhead := congrArg List.head? hfirst
    rw [show "Transfer-Encoding : chunked".toList.head? = some 'T' by decide] at hhead
    have hconnect : (requestLine m.target).head? = some 'C' := by simp [requestLine, joinWith]
    rw [hconnect] at hhead
    cases hhead
  · obtain ⟨f, hf, hline⟩ := List.mem_map.mp hfield
    have hname := f.partition_line
    rw [hline, show partition ':' "Transfer-Encoding : chunked".toList =
      ("Transfer-Encoding ".toList, true, " chunked".toList) by decide] at hname
    have htoken := (hclean f hf).1 ' ' (by
      rw [← (Prod.mk.inj hname).1]
      decide)
    revert htoken
    decide

/-- A name in upper case is not decoded; in lower case it is, and refused. -/
theorem upper_case_name_refused :
    parseConnect asciiTables [80, 443]
        (encodeAscii "CONNECT XN--A:443 HTTP/1.1\r\nHost: XN--A\r\n\r\n".toList) =
      .ok ("xn--a".toList, 443) ∧
    parseConnect asciiTables [80, 443] (connectRequest "xn--a".toList 443) =
      .error (.connectError "CONNECT hostname must be ASCII or IDNA") := by
  decide

end CrawlTrove.Egress.Connect
