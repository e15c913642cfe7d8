import CrawlTrove.Acquisition.Fetch

/-!
# Redirects and the origin permit

A task is leased with the permit of one origin. The fetcher follows redirects
wherever they lead and `LocalAdapter` compares the origins of the first and the
last URL only. `requests_own_origin_iff` says which servers keep all requests
on the origin of the task.
-/

namespace CrawlTrove.Acquisition

open Web

variable {net : Network}

/-- The fetcher sends a request for this URL at this hop. -/
def Sends (net : Network) (hop : ℕ) (url : Text) : Prop :=
  ∃ addresses, ensurePublicUrl net hop url = .safe addresses ∧ pins net url addresses = true

/-- The server redirects this request. -/
def Redirects (net : Network) (hop : ℕ) (url next : Text) : Prop :=
  ∃ addresses response location, ensurePublicUrl net hop url = .safe addresses ∧
    pins net url addresses = true ∧ net.respond hop url = some response ∧
      verifyConnected response addresses = true ∧ redirectLocation response = some location ∧
        urljoin net.tables url location = some next

/-- That many redirects lead from one URL to another. -/
inductive Leads (net : Network) : ℕ → Text → ℕ → Text → Prop
  | refl (hop : ℕ) (url : Text) : Leads net hop url 0 url
  | redirect {hop : ℕ} {url next last : Text} {k : ℕ} (h : Redirects net hop url next)
      (rest : Leads net (hop + 1) next k last) : Leads net hop url (k + 1) last

/-- No server of the origin redirects one of the first ten requests to a public
URL of another origin. -/
def StaysOnOrigin (net : Network) (url : Text) : Prop :=
  ∀ k own other, Leads net 0 url k own → originOf net own = originOf net url →
    k < maxRedirects → Redirects net k own other → Sends net (k + 1) other →
      originOf net other = originOf net url

/-- The route fetches the page itself. -/
def HttpRoute.Fetches (route : HttpRoute) (request : ProviderRequest) : Prop :=
  match route with
  | .localHttp => request.proxy ≠ some []
  | .ownedProxyHttp lease => ∃ server, lease = some server ∧ server ≠ []

/-! ## The requests of a fetch -/

theorem Leads.snoc {hop k : ℕ} {url own next : Text} (h : Leads net hop url k own)
    (hnext : Redirects net (hop + k) own next) : Leads net hop url (k + 1) next := by
  induction h with
  | refl hop url => exact .redirect hnext (.refl _ _)
  | @redirect hop url mid own k hfirst _ ih =>
      refine .redirect hfirst (ih ?_)
      rwa [Nat.add_right_comm, Nat.add_assoc]

/-- The last of several redirects. -/
theorem Leads.last {hop k : ℕ} {url other : Text} (h : Leads net hop url (k + 1) other) :
    ∃ own, Leads net hop url k own ∧ Redirects net (hop + k) own other := by
  induction k generalizing hop url with
  | zero =>
      cases h with
      | redirect hfirst hrest =>
          cases hrest
          exact ⟨url, .refl _ _, hfirst⟩
  | succ k ih =>
      cases h with
      | redirect hfirst hrest =>
          obtain ⟨own, hleads, hlast⟩ := ih hrest
          refine ⟨own, .redirect hfirst hleads, ?_⟩
          rwa [Nat.add_right_comm, Nat.add_assoc] at hlast

/-- A server redirects to one URL. -/
theorem Redirects.unique {hop : ℕ} {url next next' : Text} (h : Redirects net hop url next)
    (h' : Redirects net hop url next') : next = next' := by
  obtain ⟨_, response, location, -, -, hresponse, -, hlocation, hnext⟩ := h
  obtain ⟨_, response', location', -, -, hresponse', -, hlocation', hnext'⟩ := h'
  rw [hresponse] at hresponse'
  obtain rfl := Option.some.inj hresponse'
  rw [hlocation] at hlocation'
  obtain rfl := Option.some.inj hlocation'
  rw [hnext] at hnext'
  exact Option.some.inj hnext'

theorem Redirects.sends {hop : ℕ} {url next : Text} (h : Redirects net hop url next) :
    Sends net hop url := by
  obtain ⟨addresses, -, -, hsafe, hpins, -⟩ := h
  exact ⟨addresses, hsafe, hpins⟩

section Requests

variable {maxDecodedBytes : ℤ} {left hop : ℕ} {url next u : Text}

theorem fetchFrom_of_unsent (h : ¬ Sends net hop url) :
    (fetchFrom net maxDecodedBytes left hop url).1 = [] := by
  unfold fetchFrom
  cases hsafe : ensurePublicUrl net hop url with
  | unsafeUrl => rfl
  | raised => rfl
  | safe addresses =>
      dsimp only
      cases hpins : pins net url addresses with
      | true => exact absurd ⟨addresses, hsafe, hpins⟩ h
      | false => rfl

theorem fetchFrom_of_redirects (h : Redirects net hop url next) :
    (fetchFrom net maxDecodedBytes (left + 1) hop url).1 =
      url :: (fetchFrom net maxDecodedBytes left (hop + 1) next).1 := by
  obtain ⟨addresses, response, location, hsafe, hpins, hresponse, hverified, hlocation, hnext⟩ := h
  rw [fetchFrom]
  simp only [hsafe, hpins, hresponse, hverified, hlocation, hnext, Bool.not_true,
    Bool.false_eq_true, if_false]

/-- A fetch that has followed ten redirects, or meets none, sends one request
more. -/
theorem fetchFrom_of_last (hsends : Sends net hop url)
    (hlast : left = 0 ∨ ∀ next, ¬ Redirects net hop url next) :
    (fetchFrom net maxDecodedBytes left hop url).1 = [url] := by
  obtain ⟨addresses, hsafe, hpins⟩ := hsends
  rw [fetchFrom]
  simp only [hsafe, hpins, Bool.not_true, Bool.false_eq_true, if_false]
  cases hresponse : net.respond hop url with
  | none => rfl
  | some response =>
      dsimp only
      cases hverified : verifyConnected response addresses with
      | false => rfl
      | true =>
          cases hlocation : redirectLocation response with
          | none =>
              cases hbody : body maxDecodedBytes response with
              | none => rfl
              | some content => rfl
          | some location =>
              cases left with
              | zero => rfl
              | succ left =>
                  cases hnext : urljoin net.tables url location with
                  | none => simp [hnext]
                  | some next =>
                      exact absurd ⟨addresses, response, location, hsafe, hpins, hresponse,
                        hverified, hlocation, hnext⟩ (hlast.resolve_left (by simp) next)

/-- A fetch sends requests for the URLs that redirects lead to, as far as they
are safe and ten redirects reach. -/
theorem mem_fetchFrom :
    u ∈ (fetchFrom net maxDecodedBytes left hop url).1 ↔
      ∃ k ≤ left, Leads net hop url k u ∧ Sends net (hop + k) u := by
  induction left generalizing hop url with
  | zero =>
      constructor
      · intro hmem
        by_cases hsends : Sends net hop url
        · rw [fetchFrom_of_last hsends (Or.inl rfl), List.mem_singleton] at hmem
          rw [hmem]
          exact ⟨0, le_rfl, .refl _ _, hsends⟩
        · rw [fetchFrom_of_unsent hsends] at hmem
          cases hmem
      · rintro ⟨k, hk, hleads, hsends⟩
        obtain rfl := Nat.le_zero.mp hk
        cases hleads
        rw [Nat.add_zero] at hsends
        rw [fetchFrom_of_last hsends (Or.inl rfl)]
        exact List.mem_singleton_self u
  | succ left ih =>
      by_cases hredirects : ∃ next, Redirects net hop url next
      · obtain ⟨next, hnext⟩ := hredirects
        rw [fetchFrom_of_redirects hnext, List.mem_cons, ih]
        constructor
        · rintro (rfl | ⟨k, hk, hleads, hsends⟩)
          · exact ⟨0, Nat.zero_le _, .refl _ _, hnext.sends⟩
          · refine ⟨k + 1, Nat.succ_le_succ hk, .redirect hnext hleads, ?_⟩
            rwa [Nat.add_right_comm] at hsends
        · rintro ⟨k, hk, hleads, hsends⟩
          cases hleads with
          | refl => exact Or.inl rfl
          | @redirect _ _ next' _ k h rest =>
              obtain rfl : next' = next := h.unique hnext
              refine Or.inr ⟨k, Nat.le_of_succ_le_succ hk, rest, ?_⟩
              rwa [Nat.add_right_comm]
      · have hlast : ∀ next, ¬ Redirects net hop url next := fun next h => hredirects ⟨next, h⟩
        constructor
        · intro hmem
          by_cases hsends : Sends net hop url
          · rw [fetchFrom_of_last hsends (Or.inr hlast), List.mem_singleton] at hmem
            rw [hmem]
            exact ⟨0, Nat.zero_le _, .refl _ _, hsends⟩
          · rw [fetchFrom_of_unsent hsends] at hmem
            cases hmem
        · rintro ⟨k, hk, hleads, hsends⟩
          cases hleads with
          | refl =>
              rw [Nat.add_zero] at hsends
              rw [fetchFrom_of_last hsends (Or.inr hlast)]
              exact List.mem_singleton_self _
          | redirect h _ => exact absurd h (hlast _)

end Requests

/-! ## The origin -/

theorem acquireHttp_requests (request : ProviderRequest) {proxy : Option Text}
    (hproxy : proxy ≠ some []) : (acquireHttp net request proxy).1 =
      (fetchHttp net (request.maxDecodedBytes.getD defaultMaxDecodedBytes) request.url).1 := by
  unfold acquireHttp
  rw [if_neg hproxy]

/-- A route that fetches sends the requests of one fetch, any other none. -/
theorem acquire_requests (net : Network) (route : HttpRoute) (request : ProviderRequest) :
    (route.Fetches request ∧ (acquire net route request).1 =
        (fetchHttp net (request.maxDecodedBytes.getD defaultMaxDecodedBytes) request.url).1) ∨
      ¬ route.Fetches request ∧ (acquire net route request).1 = [] := by
  cases route with
  | localHttp =>
      by_cases hproxy : request.proxy = some []
      · refine Or.inr ⟨fun h => h hproxy, ?_⟩
        show (acquireHttp net request request.proxy).1 = []
        unfold acquireHttp
        rw [if_pos hproxy]
      · exact Or.inl ⟨hproxy, acquireHttp_requests request hproxy⟩
  | ownedProxyHttp lease =>
      cases lease with
      | none =>
          refine Or.inr ⟨?_, rfl⟩
          rintro ⟨server, heq, -⟩
          cases heq
      | some server =>
          by_cases hserver : server = []
          · refine Or.inr ⟨?_, ?_⟩
            · rintro ⟨_, heq, hne⟩
              exact hne (Option.some.inj heq ▸ hserver)
            · show (acquireHttp net request (some server)).1 = []
              unfold acquireHttp
              rw [if_pos (congrArg some hserver)]
          · refine Or.inl ⟨⟨server, rfl, hserver⟩, acquireHttp_requests request ?_⟩
            exact fun heq => hserver (Option.some.inj heq)

/-- All requests of an acquisition go to the origin of its task exactly if no
server of that origin redirects the fetcher to a public URL elsewhere. -/
theorem requests_own_origin_iff (net : Network) (route : HttpRoute) (request : ProviderRequest) :
    (∀ u ∈ (acquire net route request).1, originOf net u = originOf net request.url) ↔
      (route.Fetches request → StaysOnOrigin net request.url) := by
  rcases acquire_requests net route request with ⟨hfetches, hrequests⟩ | ⟨hnot, hrequests⟩
  · rw [hrequests]
    unfold fetchHttp
    simp only [mem_fetchFrom, Nat.zero_add]
    constructor
    · intro h _ k own other hleads _ hk hredirects hsends
      refine h other ⟨k + 1, hk, hleads.snoc ?_, hsends⟩
      rwa [Nat.zero_add]
    · rintro h u ⟨k, hk, hleads, hsends⟩
      have hstays := h hfetches
      -- By the number of redirects: the request before the last went to the origin.
      induction k generalizing u with
      | zero =>
          cases hleads
          rfl
      | succ k ih =>
          obtain ⟨own, hbefore, hlast⟩ := hleads.last
          rw [Nat.zero_add] at hlast
          have hown := ih own (Nat.le_of_succ_le hk) hbefore hlast.sends
          exact hstays k own u hbefore hown hk hlast hsends
  · rw [hrequests]
    exact iff_of_true (fun u hu => by cases hu) fun h => absurd h hnot

/-! ## Away and back -/

/-- A public address. -/
def publicAddress : IpAddress where
  text := "93.184.215.14".toList
  isV6 := false
  isGlobal := true
  isMulticast := false
  isReserved := false
  isUnspecified := false
  isLoopback := false
  isLinkLocal := false
  isPrivate := false
  isSiteLocal := false
  ipv4Mapped := false
  sixtofour := false
  teredo := false
  nat64 := false

/-- The task's server sends the fetcher to another site, which sends it back. -/
def awayAndBack : Network where
  tables := { lower := fun s => s.map Char.toLower, nfkc := id, ipAddress := fun _ => none }
  idna := some
  resolve _ _ _ := .records [publicAddress]
  respond hop url := some
    { status := if hop < 2 then 302 else 200
      location :=
        if hop = 0 then some "https://example.org/".toList
        else if hop = 1 then some "https://example.com/".toList
        else none
      primaryIp := some publicAddress
      url }

/-- The other site is asked, though the task holds no permit for it. -/
theorem requests_leave_origin :
    ¬ ∀ (net : Network) (route : HttpRoute) (request : ProviderRequest),
      ∀ u ∈ (acquire net route request).1, originOf net u = originOf net request.url := by
  intro h
  have haway : (acquire awayAndBack .localHttp { url := "https://example.com".toList }).1 =
        ["https://example.com".toList, "https://example.org/".toList,
          "https://example.com/".toList] ∧
      originOf awayAndBack "https://example.org/".toList ≠
        originOf awayAndBack "https://example.com".toList := by decide +kernel
  obtain ⟨hrequests, hother⟩ := haway
  refine hother (h awayAndBack .localHttp { url := "https://example.com".toList } _ ?_)
  rw [hrequests]
  simp

end CrawlTrove.Acquisition
