import CrawlTrove.Acquisition.Fetch
import CrawlTrove.Web.Splitting

/-!
# Pinned connections

What `_pin` leaves in the session before each request, and what has happened on every hop
when a page comes back. The session keeps its options from one hop, and from one fetch, to
the next; `fetchPinned` is the loop of `_fetch` with them, and `fetchFrom` forgets them.
-/

namespace CrawlTrove.Acquisition

open Web

variable (net : Network)

/-! ## The session -/

/-- The addresses as `ensure_public_url` hands them on, in the order of their texts. -/
def addressTexts (addresses : List IpAddress) : List Text :=
  (addresses.map IpAddress.text).insertionSort (· ≤ ·)

/-- An address as it is written in a `RESOLVE` entry. -/
def bracketed (address : Text) : Text :=
  if address.contains ':' then "[".toList ++ address ++ "]".toList else address

/-- The `RESOLVE` entry that pins a host to addresses. -/
def resolveEntry (host : Text) (port : ℕ) (addresses : List IpAddress) : Text :=
  host ++ ":".toList ++ Nat.toDigits 10 port ++ ":".toList ++
    joinWith ",".toList ((addressTexts addresses).map bracketed)

/-- `_pin`: the `RESOLVE` entries of the session afterwards; `none` where it raises. -/
def pin (url : Text) (addresses : Option (List IpAddress)) (options : List Text) :
    Option (List Text) :=
  match addresses with
  | none => some options
  | some [] => some options
  | some (address :: addresses) =>
      match urlsplit net.tables url [] with
      | none => none
      | some parsed =>
          match parsed.effectivePort, (parsed.hostname net.tables).bind net.idna with
          | some port, some host =>
              -- an address needs no pin, but the one of the last hop is taken away
              if (net.tables.ipAddress host).isNone then
                some [resolveEntry host port (address :: addresses)]
              else some []
          | _, _ => none

/-- A request on the wire: the hop, the options of the session when it was sent, and what
came back. -/
structure Exchange where
  hop : ℕ
  url : Text
  options : List Text
  response : Option Response

/-- The loop of `_fetch` from a hop on, with the options of the session. -/
def fetchPinned (maxDecodedBytes : ℤ) :
    ℕ → ℕ → Text → List Text → List Exchange × FetchResult
  | left, hop, url, options =>
      match ensurePublicUrl net hop url with
      | .unsafeUrl => ([], .unsafeUrl)
      | .raised => ([], .nothing)
      | .safe addresses =>
          match pin net url addresses options with
          | none => ([], .nothing)
          | some options =>
              match net.respond hop url with
              | none => ([⟨hop, url, options, none⟩], .nothing)
              | some response =>
                  if !verifyConnected response addresses then
                    ([⟨hop, url, options, some response⟩], .unsafeUrl)
                  else
                    match redirectLocation response with
                    | some location =>
                        match left with
                        | 0 => ([⟨hop, url, options, some response⟩], .nothing)
                        | left + 1 =>
                            match urljoin net.tables url location with
                            | none => ([⟨hop, url, options, some response⟩], .nothing)
                            | some next =>
                                let (rest, result) :=
                                  fetchPinned maxDecodedBytes left (hop + 1) next options
                                (⟨hop, url, options, some response⟩ :: rest, result)
                    | none =>
                        match body maxDecodedBytes response with
                        | none => ([⟨hop, url, options, some response⟩], .nothing)
                        | some content =>
                            ([⟨hop, url, options, some response⟩], .page
                              { status := response.status, content, finalUrl := response.url
                                contentType := response.contentType })

/-- `HttpFetcher.fetch`, on a session that earlier fetches have left with some options. -/
def fetch (maxDecodedBytes : ℤ) (url : Text) (options : List Text) :
    List Exchange × FetchResult :=
  fetchPinned net maxDecodedBytes maxRedirects 0 url options

variable {net}

/-! ## What a hop can do -/

/-- One hop and those after it. A request that is refused before it is sent, or that is
sent without a page or a redirect coming back, ends the fetch without a page. -/
inductive Follows (net : Network) (maxDecodedBytes : ℤ) :
    ℕ → ℕ → Text → List Text → List Exchange × FetchResult → Prop
  | refused {left hop url options result} (h : ∀ fetched, result ≠ .page fetched) :
      Follows net maxDecodedBytes left hop url options ([], result)
  | dropped {left hop url options options' response result}
      (h : ∀ fetched, result ≠ .page fetched) :
      Follows net maxDecodedBytes left hop url options
        ([⟨hop, url, options', response⟩], result)
  | page {left hop url options options' addresses response fetched}
      (hsafe : ensurePublicUrl net hop url = .safe addresses)
      (hpin : pin net url addresses options = some options')
      (hverified : verifyConnected response addresses = true)
      (hbody : body maxDecodedBytes response = some fetched.content) :
      Follows net maxDecodedBytes left hop url options
        ([⟨hop, url, options', some response⟩], .page fetched)
  | redirect {left hop url options options' addresses response next rest result}
      (hsafe : ensurePublicUrl net hop url = .safe addresses)
      (hpin : pin net url addresses options = some options')
      (hverified : verifyConnected response addresses = true)
      (hrest : Follows net maxDecodedBytes left (hop + 1) next options' (rest, result)) :
      Follows net maxDecodedBytes (left + 1) hop url options
        (⟨hop, url, options', some response⟩ :: rest, result)

/-- One hop, given what the hops after it do. -/
theorem follows_hop {maxDecodedBytes : ℤ} {left : ℕ}
    (hrest : ∀ l, left = l + 1 → ∀ hop url options, Follows net maxDecodedBytes l hop url options
      (fetchPinned net maxDecodedBytes l hop url options))
    (hop : ℕ) (url : Text) (options : List Text) :
    Follows net maxDecodedBytes left hop url options
      (fetchPinned net maxDecodedBytes left hop url options) := by
  unfold fetchPinned
  cases hsafe : ensurePublicUrl net hop url with
  | unsafeUrl => exact .refused fun _ => FetchResult.noConfusion
  | raised => exact .refused fun _ => FetchResult.noConfusion
  | safe addresses =>
      dsimp only
      cases hpin : pin net url addresses options with
      | none => exact .refused fun _ => FetchResult.noConfusion
      | some options' =>
          dsimp only
          cases hresponse : net.respond hop url with
          | none => exact .dropped fun _ => FetchResult.noConfusion
          | some response =>
              dsimp only
              cases hverified : verifyConnected response addresses with
              | false => exact .dropped fun _ => FetchResult.noConfusion
              | true =>
                  cases hlocation : redirectLocation response with
                  | none =>
                      cases hbody : body maxDecodedBytes response with
                      | none => exact .dropped fun _ => FetchResult.noConfusion
                      | some content => exact .page hsafe hpin hverified hbody
                  | some location =>
                      cases left with
                      | zero => exact .dropped fun _ => FetchResult.noConfusion
                      | succ left =>
                          dsimp only
                          cases hnext : urljoin net.tables url location with
                          | none => exact .dropped fun _ => FetchResult.noConfusion
                          | some next =>
                              exact .redirect hsafe hpin hverified (hrest left rfl _ _ _)

theorem fetchPinned_follows (maxDecodedBytes : ℤ) (left hop : ℕ) (url : Text)
    (options : List Text) :
    Follows net maxDecodedBytes left hop url options
      (fetchPinned net maxDecodedBytes left hop url options) := by
  induction left generalizing hop url options with
  | zero => exact follows_hop (fun l hl => by cases hl) hop url options
  | succ left ih =>
      refine follows_hop (fun l hl => ?_) hop url options
      obtain rfl := Nat.succ.inj hl
      exact ih

/-! ## What a page rests on -/

/-- When the request was sent the session was pinned to exactly these addresses, or to
none where the host is an address itself. -/
def Exchange.Pinned (net : Network) (e : Exchange) (addresses : List IpAddress) : Prop :=
  ∃ parsed port host, urlsplit net.tables e.url [] = some parsed ∧
    parsed.effectivePort = some port ∧ (parsed.hostname net.tables).bind net.idna = some host ∧
      e.options = if (net.tables.ipAddress host).isNone then [resolveEntry host port addresses]
        else []

/-- The peer that answered has one of these addresses. -/
def Exchange.Reached (e : Exchange) (addresses : List IpAddress) : Prop :=
  ∃ response ip, e.response = some response ∧ response.primaryIp = some ip ∧
    ∃ a ∈ addresses, a.text = ip.text

/-- The URL passed `ensure_public_url` at this hop, and the session and the peer agree
with the public addresses found there. -/
def Exchange.Trusted (net : Network) (e : Exchange) : Prop :=
  ∃ addresses, ensurePublicUrl net e.hop e.url = .safe (some addresses) ∧
    (∀ a ∈ addresses, isPublicAddress a = true) ∧ e.Pinned net addresses ∧ e.Reached addresses

theorem publicAddresses_safe {found : List IpAddress} {addresses : Option (List IpAddress)}
    (h : publicAddresses found = .safe addresses) :
    ∃ validated, addresses = some validated ∧ validated ≠ [] ∧
      ∀ a ∈ validated, isPublicAddress a = true := by
  unfold publicAddresses at h
  split at h
  · cases h
  · rename_i hne
    split at h
    · cases h
    · rename_i hpublic
      cases h
      refine ⟨found.dedup, rfl, ?_, ?_⟩
      · intro hempty
        rw [List.dedup_eq_nil] at hempty
        exact hne (by rw [hempty]; rfl)
      · intro a ha
        have hnot : ¬ ∃ x ∈ found, isPublicAddress x = false := by simpa using hpublic
        by_contra hprivate
        exact hnot ⟨a, List.mem_dedup.mp ha, by simpa using hprivate⟩

/-- With private networks disallowed, a URL that passes has public addresses, and some. -/
theorem ensurePublicUrl_safe (hpublic : net.allowPrivateNetworks = false) {hop : ℕ} {url : Text}
    {addresses : Option (List IpAddress)} (h : ensurePublicUrl net hop url = .safe addresses) :
    ∃ validated, addresses = some validated ∧ validated ≠ [] ∧
      ∀ a ∈ validated, isPublicAddress a = true := by
  unfold ensurePublicUrl at h
  simp only [hpublic, Bool.false_eq_true, if_false] at h
  repeat' split at h
  all_goals first
    | cases h
    | exact publicAddresses_safe h

theorem pinned_of_pin {hop : ℕ} {url : Text} {addresses : List IpAddress}
    {options options' : List Text} (response : Option Response) (hne : addresses ≠ [])
    (h : pin net url (some addresses) options = some options') :
    (Exchange.mk hop url options' response).Pinned net addresses := by
  unfold pin at h
  cases addresses with
  | nil => exact absurd rfl hne
  | cons address addresses =>
      dsimp only at h
      cases hparsed : urlsplit net.tables url [] with
      | none => simp [hparsed] at h
      | some parsed =>
          rw [hparsed] at h
          dsimp only at h
          split at h
          · rename_i port host hport hhost
            refine ⟨parsed, port, host, hparsed, hport, hhost, ?_⟩
            split at h
            · rename_i hname
              rw [if_pos hname]
              exact (Option.some.inj h).symm
            · rename_i hliteral
              rw [if_neg hliteral]
              exact (Option.some.inj h).symm
          · cases h

theorem reached_of_verifyConnected {hop : ℕ} {url : Text} {addresses : List IpAddress}
    {options : List Text} {response : Response}
    (h : verifyConnected response (some addresses) = true) :
    (Exchange.mk hop url options (some response)).Reached addresses := by
  unfold verifyConnected at h
  cases hip : response.primaryIp with
  | none => simp [hip] at h
  | some ip =>
      rw [hip] at h
      obtain ⟨a, ha, htext⟩ := List.any_eq_true.mp h
      exact ⟨response, ip, rfl, hip, a, ha, of_decide_eq_true htext⟩

/-- A hop that answered with a page or a redirect can be trusted. -/
theorem trusted_of_verified (hpublic : net.allowPrivateNetworks = false) {hop : ℕ} {url : Text}
    {addresses : Option (List IpAddress)} {options options' : List Text} {response : Response}
    (hsafe : ensurePublicUrl net hop url = .safe addresses)
    (hpin : pin net url addresses options = some options')
    (hverified : verifyConnected response addresses = true) :
    (Exchange.mk hop url options' (some response)).Trusted net := by
  obtain ⟨validated, rfl, hne, hvalidated⟩ := ensurePublicUrl_safe hpublic hsafe
  exact ⟨validated, hsafe, hvalidated, pinned_of_pin _ hne hpin,
    reached_of_verifyConnected hverified⟩

section Runs

variable {maxDecodedBytes : ℤ} {left hop : ℕ} {url : Text} {options : List Text}
  {out : List Exchange × FetchResult}

theorem Follows.length_le (h : Follows net maxDecodedBytes left hop url options out) :
    out.1.length ≤ left + 1 := by
  induction h with
  | refused _ => exact Nat.zero_le _
  | dropped _ => exact Nat.le_add_left _ _
  | page _ _ _ _ => exact Nat.le_add_left _ _
  | redirect _ _ _ _ ih => exact Nat.succ_le_succ ih

/-- The hops follow each other without a gap. -/
theorem Follows.hops (h : Follows net maxDecodedBytes left hop url options out) :
    out.1.map Exchange.hop = List.range' hop out.1.length := by
  induction h with
  | refused _ => rfl
  | dropped _ => rfl
  | page _ _ _ _ => rfl
  | redirect _ _ _ _ ih =>
      simp only [List.map_cons, List.length_cons, List.range'_succ]
      rw [ih]

theorem Follows.trusted (hpublic : net.allowPrivateNetworks = false)
    (h : Follows net maxDecodedBytes left hop url options out) {fetched : Fetched}
    (hpage : out.2 = .page fetched) :
    (fetched.content.length : ℤ) ≤ maxDecodedBytes ∧ ∀ e ∈ out.1, e.Trusted net := by
  induction h with
  | refused hnone => exact absurd hpage (hnone fetched)
  | dropped hnone => exact absurd hpage (hnone fetched)
  | page hsafe hpin hverified hbody =>
      cases hpage
      refine ⟨of_decide_eq_true (Option.filter_eq_some_iff.mp hbody).2, ?_⟩
      intro e he
      obtain rfl := List.mem_singleton.mp he
      exact trusted_of_verified hpublic hsafe hpin hverified
  | redirect hsafe hpin hverified _ ih =>
      obtain ⟨hlimit, htrusted⟩ := ih hpage
      refine ⟨hlimit, ?_⟩
      intro e he
      rcases List.mem_cons.mp he with rfl | he
      · exact trusted_of_verified hpublic hsafe hpin hverified
      · exact htrusted e he

end Runs

/-! ## The session forgotten -/

theorem port_of_safe {hop : ℕ} {url : Text} {addresses : Option (List IpAddress)}
    (h : ensurePublicUrl net hop url = .safe addresses) :
    ∃ parsed port, urlsplit net.tables url [] = some parsed ∧
      parsed.effectivePort = some port := by
  unfold ensurePublicUrl at h
  split at h
  · cases h
  · rename_i parsed hparsed
    split at h
    · cases h
    · rename_i port hport
      exact ⟨parsed, port, hparsed, hport⟩

/-- `_pin` raises where the model without a session says so. -/
theorem isSome_pin (hpublic : net.allowPrivateNetworks = false) {hop : ℕ} {url : Text}
    {addresses : Option (List IpAddress)} (options : List Text)
    (h : ensurePublicUrl net hop url = .safe addresses) :
    (pin net url addresses options).isSome = pins net url addresses := by
  obtain ⟨validated, rfl, hne, -⟩ := ensurePublicUrl_safe hpublic h
  obtain ⟨parsed, port, hparsed, hport⟩ := port_of_safe h
  cases validated with
  | nil => exact absurd rfl hne
  | cons address validated =>
      simp only [pin, pins, hparsed, hport]
      cases hhost : (parsed.hostname net.tables).bind net.idna with
      | none => rfl
      | some host =>
          dsimp only
          split <;> rfl

theorem forgets_hop (hpublic : net.allowPrivateNetworks = false) {maxDecodedBytes : ℤ} {left : ℕ}
    (hrest : ∀ l, left = l + 1 → ∀ hop url options,
      ((fetchPinned net maxDecodedBytes l hop url options).1.map Exchange.url,
        (fetchPinned net maxDecodedBytes l hop url options).2) =
        fetchFrom net maxDecodedBytes l hop url)
    (hop : ℕ) (url : Text) (options : List Text) :
    ((fetchPinned net maxDecodedBytes left hop url options).1.map Exchange.url,
      (fetchPinned net maxDecodedBytes left hop url options).2) =
      fetchFrom net maxDecodedBytes left hop url := by
  unfold fetchPinned fetchFrom
  cases hsafe : ensurePublicUrl net hop url with
  | unsafeUrl => rfl
  | raised => rfl
  | safe addresses =>
      have hpins := isSome_pin hpublic options hsafe
      dsimp only
      cases hpin : pin net url addresses options with
      | none =>
          rw [hpin] at hpins
          simp [← hpins]
      | some options' =>
          rw [hpin] at hpins
          simp only [← hpins, Option.isSome_some, Bool.not_true, Bool.false_eq_true, if_false]
          cases hresponse : net.respond hop url with
          | none => rfl
          | some response =>
              dsimp only
              cases hverified : verifyConnected response addresses with
              | false => rfl
              | true =>
                  cases hlocation : redirectLocation response with
                  | none =>
                      cases hbody : body maxDecodedBytes response with
                      | none => rfl
                      | some content => rfl
                  | some location =>
                      cases left with
                      | zero => rfl
                      | succ left =>
                          dsimp only
                          cases hnext : urljoin net.tables url location with
                          | none => rfl
                          | some next =>
                              simp only [Bool.not_true, Bool.false_eq_true, if_false,
                                List.map_cons, ← hrest left rfl (hop + 1) next options']

/-- The requests and the result are those of the loop without a session. -/
theorem fetchPinned_eq_fetchFrom (hpublic : net.allowPrivateNetworks = false)
    (maxDecodedBytes : ℤ) (left hop : ℕ) (url : Text) (options : List Text) :
    ((fetchPinned net maxDecodedBytes left hop url options).1.map Exchange.url,
      (fetchPinned net maxDecodedBytes left hop url options).2) =
      fetchFrom net maxDecodedBytes left hop url := by
  induction left generalizing hop url options with
  | zero => exact forgets_hop hpublic (fun l hl => by cases hl) hop url options
  | succ left ih =>
      refine forgets_hop hpublic (fun l hl => ?_) hop url options
      obtain rfl := Nat.succ.inj hl
      exact ih

/-! ## Pages -/

/-- Whatever name servers and servers answer, and whatever earlier fetches have left in
the session: eleven requests at most are sent, one after the other, and a page within the
limit comes back only over hops that were all validated, pinned and reached as validated. -/
theorem page_only_over_trusted_hops (net : Network) (hpublic : net.allowPrivateNetworks = false)
    (maxDecodedBytes : ℤ) (url : Text) (options : List Text) :
    (fetch net maxDecodedBytes url options).1.length ≤ maxRedirects + 1 ∧
      (fetch net maxDecodedBytes url options).1.map Exchange.hop =
        List.range (fetch net maxDecodedBytes url options).1.length ∧
      ∀ fetched, (fetch net maxDecodedBytes url options).2 = .page fetched →
        (fetched.content.length : ℤ) ≤ maxDecodedBytes ∧
          ∀ e ∈ (fetch net maxDecodedBytes url options).1, e.Trusted net := by
  have hfollows : Follows net maxDecodedBytes maxRedirects 0 url options
      (fetch net maxDecodedBytes url options) := fetchPinned_follows ..
  refine ⟨hfollows.length_le, ?_, fun fetched hpage => hfollows.trusted hpublic hpage⟩
  rw [List.range_eq_range']
  exact hfollows.hops

/-- A name that redirects to a literal address: the pin of the first hop is taken away
before the second. -/
def siteAddress : IpAddress where
  text := "93.184.215.14".toList
  isV6 := false
  isGlobal := true
  isMulticast := false
  isReserved := false
  isUnspecified := false
  isLoopback := false
  isLinkLocal := false
  isPrivate := false
  isSiteLocal := false
  ipv4Mapped := false
  sixtofour := false
  teredo := false
  nat64 := false

def nameThenAddress : Network where
  tables :=
    { lower := fun s => s.map Char.toLower, nfkc := id
      ipAddress := fun s => if s = siteAddress.text then some siteAddress else none }
  idna := some
  resolve _ _ _ := .records [siteAddress]
  respond hop url := some
    { status := if hop = 0 then 302 else 200
      location := if hop = 0 then some "http://93.184.215.14/".toList else none
      primaryIp := some siteAddress
      url }

example : (fetch nameThenAddress 10 "http://example.com/".toList ["stale".toList]).1.map
    Exchange.options = [["example.com:80:93.184.215.14".toList], []] := by decide +kernel

theorem page_only_over_trusted_hops_redirected :
    (fetch nameThenAddress 10 "http://example.com/".toList ["stale".toList]).1.length ≤
        maxRedirects + 1 ∧
      (fetch nameThenAddress 10 "http://example.com/".toList ["stale".toList]).1.map
          Exchange.hop =
        List.range
          (fetch nameThenAddress 10 "http://example.com/".toList ["stale".toList]).1.length ∧
      ∀ fetched,
        (fetch nameThenAddress 10 "http://example.com/".toList ["stale".toList]).2 =
            .page fetched →
          (fetched.content.length : ℤ) ≤ 10 ∧
            ∀ e ∈ (fetch nameThenAddress 10 "http://example.com/".toList ["stale".toList]).1,
              e.Trusted nameThenAddress :=
  page_only_over_trusted_hops nameThenAddress rfl 10 "http://example.com/".toList
    ["stale".toList]

end CrawlTrove.Acquisition
