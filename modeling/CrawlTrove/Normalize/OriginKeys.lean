import CrawlTrove.Normalize.Rereading

/-!
# Keys of origins

`origin_key` reads the URL that `normalize_url` wrote. The key names the scheme, the host
and the port of the URL it was made of if the host is one that `_normalized_host` leaves
alone and the port is not 0.
-/

namespace CrawlTrove.Normalize

open Web

/-! ## Origins -/

/-- Scheme, normalized host and effective port. -/
structure Origin where
  scheme : Text
  host : Text
  port : ℕ
deriving DecidableEq

/-- The port that stands for no port. -/
def schemePort (scheme : Text) : ℕ := if scheme = "https".toList then 443 else 80

/-- The origin of a URL: the explicit port, or the default port of the scheme. -/
def origin (codecs : Codecs) (url : Text) : Option Origin := do
  let r ← urlsplit codecs.tables url []
  let host ← normalizedHost codecs (hostText codecs r)
  let port ← r.port
  some ⟨r.scheme, host, port.getD (schemePort r.scheme)⟩

/-- An origin that is not changed by writing and reading it. -/
structure Plain (codecs : Codecs) (o : Origin) : Prop where
  port : o.port ≠ 0
  host : normalizedHost codecs o.host = some o.host
  bracket : ']' ∉ o.host

/-- `parsed.port or (443 if scheme == "https" else 80)`. -/
def keyPort (scheme : Text) : Option ℕ → ℕ
  | none | some 0 => schemePort scheme
  | some n => n

variable {codecs : Codecs}

theorem effectivePort_eq (r : SplitResult) :
    r.effectivePort = r.port.map (keyPort r.scheme) := by
  rw [SplitResult.effectivePort]
  refine congrArg (r.port.map ·) (funext fun port => ?_)
  cases port with
  | none => rfl
  | some n => cases n <;> rfl

/-- `http` or `https`. -/
def IsHttp (scheme : Text) : Prop := scheme = "http".toList ∨ scheme = "https".toList

theorem IsHttp.isScheme {scheme : Text} (h : IsHttp scheme) : IsScheme scheme := by
  have hhead : ∀ c, scheme.head? = some c → c = 'h' := by
    intro c hc
    obtain rfl | rfl := h <;> exact (Option.some.inj hc).symm
  refine ⟨?_, fun c hc => by rw [hhead c hc]; decide, List.all_eq_true.mp ?_, ?_⟩
  all_goals obtain rfl | rfl := h <;> decide

/-! ## What a key is made of -/

theorem keyOf_eq_some {normalized key : Text} (h : keyOf codecs normalized = some key) :
    ∃ r host port, urlsplit codecs.tables normalized [] = some r ∧
      normalizedHost codecs (hostText codecs r) = some host ∧ IsHttp r.scheme ∧
      r.port = some port ∧ key = writeKey r.scheme host (keyPort r.scheme port) := by
  obtain ⟨r, hsplit, h⟩ := Option.bind_eq_some_iff.mp h
  obtain ⟨host, hhost, h⟩ := Option.bind_eq_some_iff.mp h
  rw [Option.ite_none_left_eq_some, effectivePort_eq, Option.map_map, Option.map_eq_some_iff] at h
  obtain ⟨hscheme, port, hport, hkey⟩ := h
  refine ⟨r, host, port, hsplit, hhost, ?_, hport, hkey.symm⟩
  rw [not_and_or, not_not, not_not] at hscheme
  exact hscheme

theorem keyOf_of {r : SplitResult} {normalized host : Text} {port : Option ℕ}
    (hsplit : urlsplit codecs.tables normalized [] = some r)
    (hhost : normalizedHost codecs (hostText codecs r) = some host) (hhttp : IsHttp r.scheme)
    (hport : r.port = some port) :
    keyOf codecs normalized = some (writeKey r.scheme host (keyPort r.scheme port)) := by
  have hscheme : ¬ (r.scheme ≠ "http".toList ∧ r.scheme ≠ "https".toList) := by
    rw [not_and_or, not_not, not_not]
    exact hhttp
  rw [hostText] at hhost
  simp only [keyOf, hsplit, Option.bind_eq_bind, Option.bind_some, hhost, if_neg hscheme,
    effectivePort_eq, hport, Option.map_some]

theorem normalizeParts_eq_some {trackingParameters : List Text} {url normalized : Text}
    (h : normalizeParts codecs trackingParameters url = some normalized) :
    ∃ r host port, urlsplit codecs.tables url [] = some r ∧
      normalizedHost codecs (hostText codecs r) = some host ∧ r.scheme ≠ [] ∧
      r.port = some port ∧
      normalized = urlunsplit
        { scheme := r.scheme
          netloc := authority r.scheme host port
          path := normalizePath r.path
          query := normalizeQuery codecs trackingParameters r.query
          fragment := [] } := by
  obtain ⟨r, hsplit, h⟩ := Option.bind_eq_some_iff.mp h
  obtain ⟨host, hhost, h⟩ := Option.bind_eq_some_iff.mp h
  rw [Option.ite_none_left_eq_some] at h
  obtain ⟨hscheme, h⟩ := h
  obtain ⟨port, hport, h⟩ := Option.bind_eq_some_iff.mp h
  refine ⟨r, host, port, hsplit, hhost, ?_, hport, (Option.some.inj h).symm⟩
  simpa using hscheme

theorem normalizeParts_of {r : SplitResult} {url host : Text} {port : Option ℕ}
    (hsplit : urlsplit codecs.tables url [] = some r)
    (hhost : normalizedHost codecs (hostText codecs r) = some host) (hscheme : r.scheme ≠ [])
    (hport : r.port = some port) (trackingParameters : List Text) :
    normalizeParts codecs trackingParameters url = some (urlunsplit
        { scheme := r.scheme
          netloc := authority r.scheme host port
          path := normalizePath r.path
          query := normalizeQuery codecs trackingParameters r.query
          fragment := [] }) := by
  rw [hostText] at hhost
  simp [normalizeParts, hsplit, hhost, hscheme, hport]

theorem urlunsplit_scheme {r : SplitResult} (h : r.scheme ≠ []) :
    ∃ rest, urlunsplit r = r.scheme ++ ':' :: rest := by
  have hempty : ¬ r.scheme.isEmpty = true := by simpa using h
  unfold urlunsplit
  dsimp only
  rw [if_neg hempty]
  split
  · split
    · exact ⟨_, rfl⟩
    · exact ⟨_, List.append_assoc ..⟩
  · split
    · exact ⟨_, List.append_assoc ..⟩
    · exact ⟨_, (List.append_assoc ..).trans (List.append_assoc ..)⟩

/-- How the key of a URL comes about: what the URL says, and what is read of the URL that
was written. -/
structure Keyed (codecs : Codecs) (url : Text) (r : SplitResult) (host : Text)
    (port : Option ℕ) (r' : SplitResult) (host' : Text) (port' : Option ℕ) : Prop where
  split : urlsplit codecs.tables url [] = some r
  http : IsHttp r.scheme
  host_eq : normalizedHost codecs (hostText codecs r) = some host
  port_eq : r.port = some port
  normalized : normalizeUrl codecs [] url = r.scheme ++ ':' :: '/' :: '/' ::
    (authority r.scheme host port ++
      restText (normalizePath r.path) (normalizeQuery codecs [] r.query))
  short : encodedLength (normalizeUrl codecs [] url) ≤ maxUrlBytes
  resplit : urlsplit codecs.tables (normalizeUrl codecs [] url) [] = some r'
  accepts : acceptsNetloc codecs.tables (authority r.scheme host port) = true
  parts : r' = splitParts r.scheme (authority r.scheme host port)
    (restText (normalizePath r.path) (normalizeQuery codecs [] r.query))
  reread : normalizedHost codecs (hostText codecs r') = some host'
  report : r'.port = some port'
  key : originKey codecs url = writeKey r.scheme host' (keyPort r.scheme port')

theorem netloc_ne_nil (hdoc : Documented codecs) {r : SplitResult} {host : Text}
    (h : normalizedHost codecs (hostText codecs r) = some host) : r.netloc ≠ [] := by
  intro hnil
  have hempty : hostText codecs r = [] := by
    simp [hostText, SplitResult.hostname, SplitResult.hostinfo, hnil, rpartition, partition]
  rw [hempty, normalizedHost_nil hdoc] at h
  cases h

theorem exists_keyed (hdoc : Documented codecs) {url : Text} (h : originKey codecs url ≠ []) :
    ∃ r host port r' host' port', Keyed codecs url r host port r' host' port' := by
  have hkey : ∃ key, keyOf codecs (normalizeUrl codecs [] url) = some key ∧
      originKey codecs url = key := by
    cases hkey : keyOf codecs (normalizeUrl codecs [] url) with
    | none => exact absurd (by rw [originKey, hkey]; rfl) h
    | some key => exact ⟨key, rfl, by rw [originKey, hkey]; rfl⟩
  obtain ⟨key, hkey, hurl⟩ := hkey
  obtain ⟨r', host', port', hresplit, hhost', hhttp, hport', rfl⟩ := keyOf_eq_some hkey
  have hnil : normalizeUrl codecs [] url ≠ [] := by
    intro hempty
    rw [hempty] at hresplit
    obtain rfl : _ = r' := Option.some.inj hresplit
    obtain hs | hs := hhttp <;> cases hs
  have hlong : ¬ (url.isEmpty || maxUrlBytes < encodedLength url) = true := by
    intro hlong
    exact hnil (by rw [normalizeUrl, if_pos hlong])
  cases hparts : normalizeParts codecs [] url with
  | none =>
    -- The URL is returned as it is, but then it has all its parts.
    have hsame : normalizeUrl codecs [] url = url := by rw [normalizeUrl, if_neg hlong, hparts]
    rw [hsame] at hresplit
    have hscheme : r'.scheme ≠ [] := hhttp.isScheme.ne_nil
    rw [normalizeParts_of hresplit hhost' hscheme hport'] at hparts
    cases hparts
  | some normalized =>
    have hwritten : normalizeUrl codecs [] url = normalized ∧
        encodedLength normalized ≤ maxUrlBytes := by
      rw [normalizeUrl, if_neg hlong, hparts] at hnil ⊢
      dsimp only at hnil ⊢
      split at hnil
      · exact absurd rfl hnil
      · next hshort =>
        rw [if_neg hshort]
        exact ⟨rfl, not_lt.mp hshort⟩
    obtain ⟨r, host, port, hsplit, hhost, hne, hport, hnormalized⟩ :=
      normalizeParts_eq_some hparts
    have hparts := isSplit_urlsplit hsplit
    have hscheme : IsScheme r.scheme := hparts.scheme.resolve_left hne
    have hhttp' : IsHttp r.scheme := by
      obtain ⟨rest, hrest⟩ := urlunsplit_scheme (r := { r with
        netloc := authority r.scheme host port
        path := normalizePath r.path
        query := normalizeQuery codecs [] r.query
        fragment := [] }) hne
      rw [hwritten.1, hnormalized, hrest] at hresplit
      exact scheme_urlsplit hscheme hresplit ▸ hhttp
    have hnetloc := netloc_ne_nil hdoc hhost
    have hstart : ∀ c, (normalizePath r.path).head? = some c → c = '/' := by
      intro c hc
      exact normalizePath_start (hparts.path_nil_or_slash hnetloc) hc
    rw [urlunsplit_http hhttp' hstart] at hnormalized
    have hclean : ∀ c ∈ host, c ∉ ['/', '?', '#', '@', '\t', '\r', '\n'] :=
      fun c hc => normalizedHost_clean hdoc hsplit hhost hc
    have hread := hresplit
    rw [hwritten.1, hnormalized, urlsplit_written hscheme (isNetloc_authority hclean).1
      (isRest_normalized codecs hparts hnetloc), Option.ite_none_right_eq_some,
      Option.some.injEq] at hread
    obtain ⟨haccept, hr'⟩ := hread
    refine ⟨r, host, port, r', host', port', hsplit, hhttp', hhost, hport,
      hwritten.1.trans hnormalized, hwritten.1 ▸ hwritten.2, hresplit, haccept, hr'.symm, hhost',
      hport', ?_⟩
    rw [hurl, ← hr']
    rfl

/-! ## The host that is read -/

theorem isAscii_of_digit {c : Char} (h : c.isDigit = true) : isAscii c = true := by
  have h9 : '9'.toNat = 57 := rfl
  have hval : ∀ d e : Char, d.val ≤ e.val ↔ d.toNat ≤ e.toNat := fun d e => UInt32.le_iff_toNat_le
  simp only [Char.isDigit, Bool.and_eq_true, decide_eq_true_eq, ge_iff_le, hval] at h
  rw [isAscii, decide_eq_true_eq]
  omega

namespace Keyed

variable {url : Text} {r r' : SplitResult} {host host' : Text} {port port' : Option ℕ}

theorem origin_eq (h : Keyed codecs url r host port r' host' port') :
    origin codecs url = some ⟨r.scheme, host, port.getD (schemePort r.scheme)⟩ := by
  simp [origin, h.split, h.host_eq, h.port_eq]

theorem origin_normalized (h : Keyed codecs url r host port r' host' port') :
    origin codecs (normalizeUrl codecs [] url) =
      some ⟨r.scheme, host', port'.getD (schemePort r.scheme)⟩ := by
  have hscheme : r'.scheme = r.scheme := by rw [h.parts]; rfl
  simp [origin, h.resplit, h.reread, h.report, hscheme]

theorem clean (hdoc : Documented codecs) (h : Keyed codecs url r host port r' host' port') :
    IsNetloc (authority r.scheme host port) ∧ '@' ∉ authority r.scheme host port :=
  isNetloc_authority fun _ hc => normalizedHost_clean hdoc h.split h.host_eq hc

/-- Without a closing bracket in the host, host and port are read as they were written. -/
theorem hostinfo (hdoc : Documented codecs) (h : Keyed codecs url r host port r' host' port')
    (hclose : ']' ∉ host) : r'.hostinfo = (host, portText r.scheme port) := by
  have hnetloc : r'.netloc = authority r.scheme host port := by rw [h.parts]; rfl
  have haccept : acceptsNetloc codecs.tables r'.netloc = true := by
    rw [hnetloc]
    exact h.accepts
  apply hostinfo_authority hnetloc _ haccept hclose
  rw [hnetloc]
  exact (h.clean hdoc).2

theorem hostText_eq (hdoc : Documented codecs) (h : Keyed codecs url r host port r' host' port')
    (hclose : ']' ∉ host) : hostText codecs r' = host :=
  hostText_of_lower hdoc (congrArg Prod.fst (h.hostinfo hdoc hclose))
    (lower_of_normalizedHost h.host_eq)

theorem port'_eq (hdoc : Documented codecs) (h : Keyed codecs url r host port r' host' port')
    (hclose : ']' ∉ host) : port'.getD (schemePort r.scheme) = port.getD (schemePort r.scheme) := by
  have hinfo : r'.hostinfo.2 = portText r.scheme port :=
    congrArg Prod.snd (h.hostinfo hdoc hclose)
  have hreport := h.report
  cases htext : portText r.scheme port with
  | none =>
    rw [SplitResult.port, hinfo, htext] at hreport
    obtain rfl : none = port' := Option.some.inj hreport
    cases hport : port with
    | none => rfl
    | some n =>
      have hdefault : some n = defaultPort r.scheme := by
        by_contra hne
        rw [hport, portText, if_neg hne] at htext
        cases htext
      have hscheme : defaultPort r.scheme = some (schemePort r.scheme) := by
        obtain hs | hs := h.http <;> rw [hs] <;> decide
      rw [hscheme] at hdefault
      exact (Option.some.inj hdefault).symm
  | some digits =>
    obtain ⟨n, rfl, -, rfl⟩ := portText_cases htext
    rw [port_of_digits (hinfo.trans htext) (le_of_port h.port_eq)] at hreport
    rw [← Option.some.inj hreport]

/-- A host that is read as it was written has no closing bracket. -/
theorem close_not_mem (hdoc : Documented codecs) (h : Keyed codecs url r host port r' host port') :
    ']' ∉ host := by
  intro hclose
  have hascii := isAscii_of_close hdoc h.host_eq hclose
  have hnetloc : r'.netloc = authority r.scheme host port := by rw [h.parts]; rfl
  have hraw : ∀ c ∈ r'.hostinfo.1, isAscii c = true := by
    intro c hc
    have hmem := (SplitResult.mem_of_mem_host hc).1
    rw [hnetloc] at hmem
    obtain hmem | rfl | rfl | rfl | hdigit := mem_authority hmem
    · exact hascii c hmem
    · decide
    · decide
    · decide
    · exact isAscii_of_digit hdigit
  have haccept : acceptsNetloc codecs.tables r'.netloc = true := by
    rw [hnetloc]
    exact h.accepts
  apply SplitResult.close_not_mem_host _ haccept (close_mem_host hdoc h.reread hraw hclose)
  rw [hnetloc]
  exact (h.clean hdoc).2

/-- The host is read as it was written exactly when it is one that `_normalized_host` leaves
alone and has no closing bracket. -/
theorem host'_eq_iff (hdoc : Documented codecs) (h : Keyed codecs url r host port r' host' port') :
    host' = host ↔ normalizedHost codecs host = some host ∧ ']' ∉ host := by
  constructor
  · rintro rfl
    have hclose := h.close_not_mem hdoc
    refine ⟨?_, hclose⟩
    have hread := h.reread
    rwa [h.hostText_eq hdoc hclose] at hread
  · rintro ⟨hhost, hclose⟩
    have hread := h.reread
    rw [h.hostText_eq hdoc hclose, hhost] at hread
    exact (Option.some.inj hread).symm

/-- The authority is written again as it was. -/
theorem portText'_eq (hdoc : Documented codecs) (h : Keyed codecs url r host port r' host' port')
    (hclose : ']' ∉ host) : portText r.scheme port' = portText r.scheme port := by
  have hinfo : r'.hostinfo.2 = portText r.scheme port :=
    congrArg Prod.snd (h.hostinfo hdoc hclose)
  have hreport := h.report
  cases htext : portText r.scheme port with
  | none =>
    rw [SplitResult.port, hinfo, htext] at hreport
    obtain rfl : none = port' := Option.some.inj hreport
    rfl
  | some digits =>
    obtain ⟨n, rfl, -, rfl⟩ := portText_cases htext
    rw [port_of_digits (hinfo.trans htext) (le_of_port h.port_eq)] at hreport
    rw [← Option.some.inj hreport, htext]

/-- A URL whose host is read as it was written has the key of its normalized URL. -/
theorem key_normalized (hdoc : Documented codecs)
    (h : Keyed codecs url r host port r' host port') :
    originKey codecs (normalizeUrl codecs [] url) = originKey codecs url := by
  have hclose := h.close_not_mem hdoc
  have hscheme := h.http.isScheme
  have hscheme' : r'.scheme = r.scheme := by rw [h.parts]; rfl
  have hnetloc : authority r.scheme host port' = authority r.scheme host port := by
    rw [authority_eq, authority_eq, h.portText'_eq hdoc hclose]
  have hsplit := isSplit_urlsplit h.resplit
  have hne := netloc_ne_nil hdoc h.reread
  have hstart : ∀ c, (normalizePath r'.path).head? = some c → c = '/' :=
    fun c hc => normalizePath_start (hsplit.path_nil_or_slash hne) hc
  -- The URL that is written now differs in what stands behind the authority only.
  have hagain := normalizeParts_of h.resplit h.reread (hscheme' ▸ hscheme.ne_nil) h.report []
  rw [hscheme', hnetloc, urlunsplit_http h.http hstart] at hagain
  have hlength : encodedLength (r.scheme ++ ':' :: '/' :: '/' ::
      (authority r.scheme host port ++
        restText (normalizePath r'.path) (normalizeQuery codecs [] r'.query))) ≤ maxUrlBytes := by
    refine le_trans ?_ h.short
    have hrest := encodedLength_restText_normalized codecs r.scheme (authority r.scheme host port)
      (restText (normalizePath r.path) (normalizeQuery codecs [] r.query))
    rw [← h.parts] at hrest
    rw [h.normalized]
    simp only [encodedLength_append, encodedLength_cons]
    omega
  have hnil : ¬ ((normalizeUrl codecs [] url).isEmpty ||
      maxUrlBytes < encodedLength (normalizeUrl codecs [] url)) = true := by
    have hshort := h.short
    have hcons : (normalizeUrl codecs [] url).isEmpty = false := by
      rw [h.normalized]
      simp
    rw [hcons, Bool.false_or, decide_eq_true_eq, not_lt]
    exact hshort
  have htwice : normalizeUrl codecs [] (normalizeUrl codecs [] url) =
      r.scheme ++ ':' :: '/' :: '/' :: (authority r.scheme host port ++
        restText (normalizePath r'.path) (normalizeQuery codecs [] r'.query)) := by
    rw [normalizeUrl, if_neg hnil, hagain]
    exact if_neg (not_lt.mpr hlength)
  have hresplit := @urlsplit_written codecs.tables _ _ _ hscheme (h.clean hdoc).1
    (isRest_normalized codecs hsplit hne)
  rw [if_pos h.accepts, ← htwice] at hresplit
  have hsameNetloc : (splitParts r.scheme (authority r.scheme host port)
      (restText (normalizePath r'.path) (normalizeQuery codecs [] r'.query))).netloc =
        r'.netloc := by
    rw [h.parts]
    rfl
  have hhost : normalizedHost codecs (hostText codecs (splitParts r.scheme
      (authority r.scheme host port)
      (restText (normalizePath r'.path) (normalizeQuery codecs [] r'.query)))) = some host := by
    rw [hostText, SplitResult.hostname_congr _ hsameNetloc]
    exact h.reread
  have hkey := keyOf_of hresplit hhost h.http ((SplitResult.port_congr hsameNetloc).trans h.report)
  rw [h.key, originKey, hkey]
  rfl

end Keyed

/-! ## Keys as texts -/

theorem serializedHost_injective {host host' : Text} (h : serializedHost host = serializedHost host') :
    host = host' := by
  have hbracketed (s : Text) (hs : ':' ∈ s) : serializedHost s = '[' :: s ++ [']'] :=
    if_pos (by simpa using hs)
  have hplain (s : Text) (hs : ':' ∉ s) : serializedHost s = s := if_neg (by simpa using hs)
  by_cases hcolon : ':' ∈ host <;> by_cases hcolon' : ':' ∈ host'
  · rw [hbracketed host hcolon, hbracketed host' hcolon'] at h
    exact List.append_cancel_right (List.cons.inj h).2
  · rw [hbracketed host hcolon, hplain host' hcolon'] at h
    exact absurd (h ▸ by simp [hcolon]) hcolon'
  · rw [hplain host hcolon, hbracketed host' hcolon'] at h
    exact absurd (h ▸ by simp [hcolon']) hcolon
  · rw [hplain host hcolon, hplain host' hcolon'] at h
    exact h

theorem writeKey_injective {scheme scheme' host host' : Text} {port port' : ℕ}
    (hscheme : IsHttp scheme) (hscheme' : IsHttp scheme')
    (h : writeKey scheme host port = writeKey scheme' host' port') :
    scheme = scheme' ∧ host = host' ∧ port = port' := by
  have hsplit (s host : Text) (port : ℕ) : writeKey s host port =
      s ++ ':' :: '/' :: '/' :: (serializedHost host ++ ':' :: Nat.toDigits 10 port) := by
    simp [writeKey]
  have hfirst := congrArg (partition ':') h
  rw [hsplit, hsplit, partition_append hscheme.isScheme.colon_not_mem,
    partition_append hscheme'.isScheme.colon_not_mem] at hfirst
  have hrest := congrArg (fun p => p.2.2.drop 2) hfirst
  simp only [List.drop_succ_cons, List.drop_zero] at hrest
  -- The digits stand behind the last colon.
  have hlast := congrArg (fun s : Text => partition ':' s.reverse) hrest
  have hdigits (n : ℕ) : ':' ∉ (Nat.toDigits 10 n).reverse := by
    rw [List.mem_reverse]
    intro hmem
    cases Nat.isDigit_of_mem_toDigits (by decide) (by decide) hmem
  simp only [List.reverse_append, List.reverse_cons, List.append_assoc, List.singleton_append,
    partition_append (hdigits port), partition_append (hdigits port'), Prod.mk.injEq,
    List.reverse_inj, true_and] at hlast
  obtain ⟨hport, hhost⟩ := hlast
  refine ⟨congrArg Prod.fst hfirst, serializedHost_injective hhost, ?_⟩
  have hvalue := congrArg (Nat.ofDigitChars 10 · 0) hport
  simpa only [Nat.ofDigitChars_ten_toDigits] using hvalue

theorem keyPort_of_ne_zero {scheme : Text} {port : Option ℕ}
    (h : port.getD (schemePort scheme) ≠ 0) : keyPort scheme port = port.getD (schemePort scheme) := by
  cases port with
  | none => rfl
  | some n =>
    cases n with
    | zero => exact absurd rfl h
    | succ n => rfl

/-- The key of a URL with a plain origin names it. -/
theorem key_of_plain (hdoc : Documented codecs) {url : Text} (hkey : originKey codecs url ≠ [])
    (hplain : ∀ o ∈ origin codecs url, Plain codecs o) :
    ∃ o, origin codecs url = some o ∧ IsHttp o.scheme ∧
      originKey codecs url = writeKey o.scheme o.host o.port := by
  obtain ⟨r, host, port, r', host', port', h⟩ := exists_keyed hdoc hkey
  obtain ⟨hport, hhost, hclose⟩ := hplain _ h.origin_eq
  refine ⟨_, h.origin_eq, h.http, ?_⟩
  rw [h.key, (h.host'_eq_iff hdoc).mpr ⟨hhost, hclose⟩]
  have hread := h.port'_eq hdoc hclose
  rw [keyPort_of_ne_zero (hread ▸ hport), hread]

/-! ## Without the port -/

/-- What `_checknetloc` normalizes. -/
def checkedText (netloc : Text) : Text := netloc.filter fun c => c ∉ ['@', ':', '#', '?']

theorem checkNetloc_iff (netloc : Text) :
    checkNetloc codecs.tables netloc = true ↔
      (∀ c ∈ netloc, isAscii c = true) ∨
        codecs.nfkc (checkedText netloc) = checkedText netloc ∨
        ∀ c ∈ codecs.nfkc (checkedText netloc), c ∉ ['/', '?', '#', '@', ':'] := by
  unfold checkNetloc
  change (_ || (decide (codecs.nfkc (checkedText netloc) = checkedText netloc) ||
    !(codecs.nfkc (checkedText netloc)).any ['/', '?', '#', '@', ':'].contains)) = true ↔ _
  simp only [Bool.or_eq_true, List.all_eq_true, decide_eq_true_eq, Bool.not_eq_true',
    List.any_eq_false, List.contains_iff_mem]

theorem checkNetloc_append (hdoc : Documented codecs) {netloc tail : Text}
    (htail : ∀ c ∈ tail, isAscii c = true)
    (h : checkNetloc codecs.tables (netloc ++ tail) = true) :
    checkNetloc codecs.tables netloc = true := by
  have hkept : (checkedText tail).all isAscii = true :=
    List.all_eq_true.mpr fun c hc => htail c (List.mem_of_mem_filter hc)
  have happend : checkedText (netloc ++ tail) = checkedText netloc ++ checkedText tail :=
    List.filter_append ..
  rw [checkNetloc_iff, happend, hdoc.nfkc_append _ _ hkept] at h
  rw [checkNetloc_iff]
  obtain h | h | h := h
  · exact .inl fun c hc => h c (List.mem_append_left _ hc)
  · exact .inr (.inl (List.append_cancel_right h))
  · exact .inr (.inr fun c hc => h c (List.mem_append_left _ hc))

/-- An authority that is accepted is accepted without its port. -/
theorem acceptsNetloc_without_port (hdoc : Documented codecs) {scheme host : Text}
    {port : Option ℕ} (hclose : ']' ∉ host)
    (h : acceptsNetloc codecs.tables (authority scheme host port) = true) :
    acceptsNetloc codecs.tables (authority scheme host none) = true := by
  have htail : ∀ c ∈ portTail (portText scheme port), c = ':' ∨ c.isDigit = true :=
    fun c hc => mem_portTail hc
  have hnot : ∀ c, c = '[' ∨ c = ']' → c ∉ portTail (portText scheme port) := by
    rintro c hc hmem
    obtain rfl | rfl := hc <;> obtain h | h := htail _ hmem <;> cases h
  have hascii : ∀ c ∈ portTail (portText scheme port), isAscii c = true := by
    intro c hc
    obtain rfl | hdigit := htail c hc
    · decide
    · exact isAscii_of_digit hdigit
  rw [authority_eq] at h
  change acceptsNetloc codecs.tables (serializedHost host) = true
  generalize portTail (portText scheme port) = tail at h hnot hascii
  simp only [acceptsNetloc, Bool.and_eq_true] at h ⊢
  obtain ⟨⟨hbrackets, hinner⟩, hcheck⟩ := h
  refine ⟨⟨?_, ?_⟩, checkNetloc_append hdoc hascii hcheck⟩
  · simpa [hnot] using hbrackets
  · by_cases hcolon : ':' ∈ host
    · have hserial : serializedHost host = '[' :: (host ++ [']']) := if_pos (by simpa using hcolon)
      have hread (rest : Text) : (partition ']' (partition '['
          ('[' :: (host ++ ']' :: rest))).2.2).1 = host := by
        have hopen : partition '[' ('[' :: (host ++ ']' :: rest)) =
            ([], true, host ++ ']' :: rest) := partition_append (s := []) List.not_mem_nil _
        rw [hopen, partition_append hclose]
      have happend : serializedHost host ++ tail = '[' :: (host ++ ']' :: tail) := by
        rw [hserial]
        simp
      rw [happend, hread] at hinner
      rw [hserial, hread]
      simpa using hinner
    · have hserial : serializedHost host = host := if_neg (by simpa using hcolon)
      have hopen : '[' ∉ host := by
        intro hopen
        rw [hserial] at hbrackets
        simp [hopen, hclose, hnot] at hbrackets
      simp [hserial, hopen]

/-- A URL of nothing but a scheme and a host that is read as it is written. -/
theorem key_bare (hdoc : Documented codecs) {scheme host : Text} (hscheme : IsHttp scheme)
    (hhost : normalizedHost codecs host = some host) (hclose : ']' ∉ host)
    (hclean : ∀ c ∈ host, c ∉ ['/', '?', '#', '@', '\t', '\r', '\n'])
    (haccept : acceptsNetloc codecs.tables (authority scheme host none) = true)
    (hshort : encodedLength (scheme ++ ':' :: '/' :: '/' :: serializedHost host) ≤ maxUrlBytes) :
    origin codecs (scheme ++ ':' :: '/' :: '/' :: serializedHost host) =
        some ⟨scheme, host, schemePort scheme⟩ ∧
      originKey codecs (scheme ++ ':' :: '/' :: '/' :: serializedHost host) =
        writeKey scheme host (schemePort scheme) := by
  have hauthority : IsNetloc (authority scheme host none) ∧ '@' ∉ authority scheme host none :=
    isNetloc_authority hclean
  obtain ⟨hnetloc, hat⟩ := hauthority
  have hrest : IsRest ([] : Text) := by
    constructor <;> intro c hc <;> cases hc
  have hsplit : urlsplit codecs.tables (scheme ++ ':' :: '/' :: '/' :: serializedHost host) [] =
      some (splitParts scheme (authority scheme host none) []) := by
    have hwritten := @urlsplit_written codecs.tables _ _ _ hscheme.isScheme hnetloc hrest
    rwa [if_pos haccept, List.append_nil] at hwritten
  have hinfo : (splitParts scheme (authority scheme host none) []).hostinfo =
      (host, portText scheme none) := hostinfo_authority rfl hat haccept hclose
  have htext : hostText codecs (splitParts scheme (authority scheme host none) []) = host :=
    hostText_of_lower hdoc (congrArg Prod.fst hinfo) (lower_of_normalizedHost hhost)
  have hread : normalizedHost codecs (hostText codecs
      (splitParts scheme (authority scheme host none) [])) = some host := by rw [htext, hhost]
  have hport : (splitParts scheme (authority scheme host none) []).port = some none := by
    rw [SplitResult.port, hinfo]
    rfl
  refine ⟨?_, ?_⟩
  · simp only [origin, hsplit, Option.bind_eq_bind, Option.bind_some, hread, hport, Option.getD_none]
    rfl
  · have hparts := normalizeParts_of hsplit hread hscheme.isScheme.ne_nil hport []
    have hnothing : normalizePath [] = [] := by decide
    change _ = some (urlunsplit
      { scheme := scheme
        netloc := authority scheme host none
        path := normalizePath []
        query := normalizeQuery codecs [] []
        fragment := [] }) at hparts
    rw [hnothing, normalizeQuery_nil, urlunsplit_http hscheme (by simp)] at hparts
    have hsame : normalizeUrl codecs [] (scheme ++ ':' :: '/' :: '/' :: serializedHost host) =
        scheme ++ ':' :: '/' :: '/' :: serializedHost host := by
      rw [normalizeUrl, if_neg, hparts]
      · simp only [restText, normalizePercentEncoding, List.isEmpty_nil, if_true, List.append_nil]
        exact if_neg (not_lt.mpr hshort)
      · have hcons : (scheme ++ ':' :: '/' :: '/' :: serializedHost host).isEmpty = false := by simp
        rw [hcons, Bool.false_or, decide_eq_true_eq, not_lt]
        exact hshort
    rw [originKey, hsame, keyOf_of hsplit hread hscheme hport]
    rfl

/-! ## Faithful keys -/

/-- A URL keeps the claim of its key against every URL with a plain origin, and its
normalized URL has its key, exactly when its own origin is plain. -/
theorem originKey_faithful_iff (hdoc : Documented codecs) {url : Text}
    (hkey : originKey codecs url ≠ []) :
    ((∀ other, originKey codecs other ≠ [] → (∀ o ∈ origin codecs other, Plain codecs o) →
        (originKey codecs url = originKey codecs other ↔
          origin codecs url = origin codecs other)) ∧
      originKey codecs (normalizeUrl codecs [] url) = originKey codecs url) ↔
    ∀ o ∈ origin codecs url, Plain codecs o := by
  obtain ⟨r, host, port, r', host', port', h⟩ := exists_keyed hdoc hkey
  constructor
  · rintro ⟨hfaithful, hsame⟩
    obtain ⟨r₁, host₁, port₁, r'', host'', port'', h'⟩ :=
      exists_keyed hdoc (hsame ▸ hkey : originKey codecs (normalizeUrl codecs [] url) ≠ [])
    obtain rfl : r' = r₁ := Option.some.inj (h.resplit.symm.trans h'.split)
    obtain rfl : host' = host₁ := Option.some.inj (h.reread.symm.trans h'.host_eq)
    obtain rfl : port' = port₁ := Option.some.inj (h.report.symm.trans h'.port_eq)
    have hscheme : r'.scheme = r.scheme := by rw [h.parts]; rfl
    have hnames := hsame
    rw [h'.key, h.key] at hnames
    obtain ⟨-, hhost, hport⟩ := writeKey_injective h'.http h.http hnames
    obtain ⟨hstable, hclose⟩ := (h'.host'_eq_iff hdoc).mp hhost
    by_cases hzero : port'.getD (schemePort r.scheme) = 0
    · -- The same URL without its port has the same key.
      have hclean : ∀ c ∈ host', c ∉ ['/', '?', '#', '@', '\t', '\r', '\n'] :=
        fun c hc => normalizedHost_clean hdoc h.resplit h.reread hc
      have haccept := acceptsNetloc_without_port hdoc hclose h'.accepts
      rw [hscheme] at haccept
      have hshort : encodedLength (r.scheme ++ ':' :: '/' :: '/' :: serializedHost host') ≤
          maxUrlBytes := by
        have hshort := h'.short
        rw [h'.normalized, hscheme, authority_eq] at hshort
        refine le_trans ?_ hshort
        simp only [encodedLength_append, encodedLength_cons]
        omega
      obtain ⟨horigin, hbare⟩ := key_bare hdoc h.http hstable hclose hclean haccept hshort
      have hpositive : schemePort r.scheme ≠ 0 := by
        unfold schemePort
        split <;> decide
      have hdefault : keyPort r.scheme port' = schemePort r.scheme := by
        cases port' with
        | none => rfl
        | some n =>
          obtain rfl : n = 0 := hzero
          rfl
      have hequal : originKey codecs url = originKey codecs
          (r.scheme ++ ':' :: '/' :: '/' :: serializedHost host') := by
        rw [h.key, hbare, hdefault]
      have hplain : ∀ o ∈ origin codecs (r.scheme ++ ':' :: '/' :: '/' :: serializedHost host'),
          Plain codecs o := by
        rw [horigin]
        rintro o ⟨⟩
        exact ⟨hpositive, hstable, hclose⟩
      rw [(hfaithful _ (hequal ▸ hkey) hplain).mp hequal]
      exact hplain
    · have hplain : ∀ o ∈ origin codecs (normalizeUrl codecs [] url), Plain codecs o := by
        rw [h.origin_normalized]
        rintro o ⟨⟩
        exact ⟨hzero, hstable, hclose⟩
      rw [(hfaithful _ (hsame ▸ hkey) hplain).mp hsame.symm]
      exact hplain
  · intro hplain
    refine ⟨fun other hother hplain' => ?_, ?_⟩
    · obtain ⟨o, ho, hhttp, hname⟩ := key_of_plain hdoc hkey hplain
      obtain ⟨o', ho', hhttp', hname'⟩ := key_of_plain hdoc hother hplain'
      rw [hname, hname', ho, ho']
      constructor
      · intro heq
        obtain ⟨hscheme, hhost, hport⟩ := writeKey_injective hhttp hhttp' heq
        cases o
        cases o'
        simp_all
      · intro heq
        rw [Option.some.inj heq]
    · obtain ⟨-, hhost, hclose⟩ := hplain _ h.origin_eq
      obtain rfl := (h.host'_eq_iff hdoc).mpr ⟨hhost, hclose⟩
      exact h.key_normalized hdoc

/-! ## ASCII hosts -/

/-- The tables on ASCII, with no other labels. -/
def asciiCodecs : Codecs where
  lower s := s.map Char.toLower
  casefold s := s.map Char.toLower
  nfkc s := s
  nameprep _ := none
  punycode _ := []
  unquotePlus s := s

/-- A label has only a normal form that is its own. -/
theorem mem_toAscii {label : Text} {bytes : Artifacts.Bytes} {b : UInt8}
    (h : toAscii asciiCodecs label = some bytes) (hb : b ∈ bytes) :
    ∃ c ∈ label, isAscii c = true ∧ b = UInt8.ofNat c.toNat := by
  unfold toAscii sized at h
  split at h
  · next hall =>
    rw [Option.ite_none_right_eq_some, Option.some.injEq] at h
    obtain ⟨-, rfl⟩ := h
    obtain ⟨c, hc, rfl⟩ := List.mem_map.mp hb
    exact ⟨c, hc, List.all_eq_true.mp hall c hc, rfl⟩
  · cases h

theorem mem_intercalate {separator : Artifacts.Bytes} {parts : List Artifacts.Bytes} {b : UInt8}
    (h : b ∈ separator.intercalate parts) : b ∈ separator ∨ ∃ part ∈ parts, b ∈ part := by
  induction parts with
  | nil => cases h
  | cons part rest ih =>
    cases rest with
    | nil => exact .inr ⟨part, List.mem_cons_self, by simpa [List.intercalate] using h⟩
    | cons next rest =>
      rw [List.intercalate, List.intersperse_cons_cons, List.flatten_cons, List.flatten_cons,
        List.mem_append, List.mem_append] at h
      obtain h | h | h := h
      · exact .inr ⟨part, List.mem_cons_self, h⟩
      · exact .inl h
      · obtain h | ⟨part', hpart', hb⟩ := ih h
        · exact .inl h
        · exact .inr ⟨part', List.mem_cons_of_mem _ hpart', hb⟩

theorem exists_of_mem_mapM {labels : List Text} {parts : List Artifacts.Bytes}
    {part : Artifacts.Bytes} (h : labels.mapM (toAscii asciiCodecs) = some parts)
    (hpart : part ∈ parts) : ∃ label ∈ labels, toAscii asciiCodecs label = some part := by
  induction labels generalizing parts with
  | nil =>
    obtain rfl := Option.some.inj h
    cases hpart
  | cons label labels ih =>
    rw [List.mapM_cons, Option.bind_eq_bind, Option.bind_eq_some_iff] at h
    obtain ⟨first, hfirst, h⟩ := h
    rw [Option.bind_eq_bind, Option.bind_eq_some_iff] at h
    obtain ⟨others, hothers, h⟩ := h
    obtain rfl := Option.some.inj h
    obtain rfl | hpart := List.mem_cons.mp hpart
    · exact ⟨label, List.mem_cons_self, hfirst⟩
    · obtain ⟨label', hlabel', heq⟩ := ih hothers hpart
      exact ⟨label', List.mem_cons_of_mem _ hlabel', heq⟩

theorem mem_encodeIdna {host : Text} {bytes : Artifacts.Bytes} {b : UInt8}
    (h : encodeIdna asciiCodecs host = some bytes) (hb : b ∈ bytes) :
    b = 46 ∨ ∃ c ∈ host, isAscii c = true ∧ b = UInt8.ofNat c.toNat := by
  unfold encodeIdna at h
  split at h
  · next hall =>
    rw [Option.ite_none_right_eq_some, Option.some.injEq] at h
    obtain ⟨-, rfl⟩ := h
    obtain ⟨c, hc, rfl⟩ := List.mem_map.mp hb
    exact .inr ⟨c, hc, List.all_eq_true.mp hall c hc, rfl⟩
  · obtain ⟨parts, hparts, rfl⟩ := Option.map_eq_some_iff.mp h
    obtain hb | hb := List.mem_append.mp hb
    · obtain hb | ⟨part, hpart, hb⟩ := mem_intercalate hb
      · exact .inl (List.mem_singleton.mp hb)
      obtain ⟨label, hlabel, heq⟩ := exists_of_mem_mapM hparts hpart
      obtain ⟨c, hc, hascii, rfl⟩ := mem_toAscii heq hb
      have hlabel : label ∈ split '.' (host.map fun c => if isLabelDot c then '.' else c) := by
        split at hlabel
        · exact List.mem_of_mem_dropLast hlabel
        · exact hlabel
      have hwritten := Web.mem_of_mem_split hlabel hc
      obtain ⟨d, hd, hread⟩ := List.mem_map.mp hwritten
      split at hread
      · subst hread
        exact .inl rfl
      · subst hread
        exact .inr ⟨d, hd, hascii, rfl⟩
    · split at hb
      · exact .inl (List.mem_singleton.mp hb)
      · cases hb

theorem asciiCodecs_documented : Documented asciiCodecs where
  lower_ascii _ _ := rfl
  lower_mem s c hc _ hletter := by
    obtain ⟨d, hd, rfl⟩ := List.mem_map.mp hc
    have hsame : d.toLower = d := by
      apply Char.toLower_eq_of_not_isUpper
      intro hupper
      simp [Char.isAlpha, hupper] at hletter
    rwa [hsame]
  nfkc_append _ _ _ := rfl
  idna_mem url r host bytes name _ _ hbytes hname c hc hguard := by
    unfold decodeAscii at hname
    rw [Option.ite_none_right_eq_some, Option.some.injEq] at hname
    obtain ⟨-, rfl⟩ := hname
    obtain ⟨b, hb, rfl⟩ := List.mem_map.mp hc
    obtain rfl | ⟨d, hd, hascii, rfl⟩ := mem_encodeIdna hbytes hb
    · exact absurd hguard (by decide)
    · have hbound : d.toNat < 128 := by simpa [isAscii] using hascii
      rwa [Web.toNat_ofNat hbound, Char.ofNat_toNat]

/-- The key of a URL whose origin is plain. -/
theorem originKey_faithful_sample :
    ((∀ other, originKey asciiCodecs other ≠ [] →
        (∀ o ∈ origin asciiCodecs other, Plain asciiCodecs o) →
        (originKey asciiCodecs "HTTP://Example.COM.:8080/a?b".toList =
            originKey asciiCodecs other ↔
          origin asciiCodecs "HTTP://Example.COM.:8080/a?b".toList =
            origin asciiCodecs other)) ∧
      originKey asciiCodecs (normalizeUrl asciiCodecs [] "HTTP://Example.COM.:8080/a?b".toList) =
        originKey asciiCodecs "HTTP://Example.COM.:8080/a?b".toList) ↔
    ∀ o ∈ origin asciiCodecs "HTTP://Example.COM.:8080/a?b".toList, Plain asciiCodecs o :=
  originKey_faithful_iff asciiCodecs_documented (by decide)

/-- `http://h:0` and `http://h` are two origins under one key. -/
theorem originKey_not_faithful :
    ¬ ∀ url other, originKey asciiCodecs url ≠ [] → originKey asciiCodecs other ≠ [] →
      (originKey asciiCodecs url = originKey asciiCodecs other ↔
        origin asciiCodecs url = origin asciiCodecs other) := by
  intro h
  have hkeys := h "http://h:0".toList "http://h".toList (by decide) (by decide)
  exact absurd (hkeys.mp (by decide)) (by decide)

/-- An ideographic full stop at the end of a host is read as a full stop, which the key
drops. -/
theorem originKey_drops_dot :
    originKey asciiCodecs ['h', 't', 't', 'p', ':', '/', '/', 'h', '\u3002'] =
        originKey asciiCodecs "http://h".toList ∧
      origin asciiCodecs ['h', 't', 't', 'p', ':', '/', '/', 'h', '\u3002'] =
        some ⟨"http".toList, "h.".toList, 80⟩ := by
  decide

end CrawlTrove.Normalize
