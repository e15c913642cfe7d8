import CrawlTrove.Web.Url

/-!
# Pages over HTTP

`ensure_public_url`, the redirect loop of `HttpFetcher` and the two HTTP routes
of `LocalAdapter`. Whatever answers (name servers, servers, timeouts) is a
parameter that may answer differently at every hop; a fetch returns with its
outcome the URLs it sent requests to. A document or a page that is read sends
no further request, so how its text is extracted is left out, and so are the
headers and the encoding of the body.
-/

namespace CrawlTrove.Acquisition

open Web

/-- `MAX_REDIRECTS`. -/
def maxRedirects : ℕ := 10

/-- `REDIRECT_STATUSES`. -/
def redirectStatuses : List ℤ := [301, 302, 303, 307, 308]

/-! ## The network -/

/-- How a name is resolved: records, a failure that is caught, or a timeout
that ends the fetch. -/
inductive Lookup
  | records (addresses : List IpAddress)
  | failed
  | cutShort

/-- A response as the fetcher reads it. `primaryIp` is the peer's address if it
is one; `content` is missing where reading the body raises. -/
structure Response where
  status : ℤ
  location : Option Text := none
  primaryIp : Option IpAddress := none
  url : Text
  contentType : Text := []
  content : Option (List UInt8) := some []

/-- The configuration and everything outside the process. Name servers and
servers are asked at a hop; `respond` is `none` where the request raises. -/
structure Network where
  tables : Tables
  allowPrivateNetworks : Bool := false
  /-- `host.encode("idna")`. -/
  idna : Text → Option Text
  resolve : ℕ → Text → ℕ → Lookup
  respond : ℕ → Text → Option Response

variable (net : Network)

/-! ## `url_safety` -/

/-- `_is_public_address`. -/
def isPublicAddress (address : IpAddress) : Bool :=
  if !address.isGlobal || address.isMulticast || address.isReserved || address.isUnspecified ||
      address.isLoopback || address.isLinkLocal || address.isPrivate || address.isSiteLocal then
    false
  else if address.isV6 then
    !(address.ipv4Mapped || address.sixtofour || address.teredo) && !address.nat64
  else true

/-- What `ensure_public_url` comes to: the addresses to pin (`none` where
private networks are allowed), `UnsafeUrlError`, or another exception. -/
inductive Safety
  | safe (addresses : Option (List IpAddress))
  | unsafeUrl
  | raised

/-- The addresses of a host, all of which must be public. -/
def publicAddresses (addresses : List IpAddress) : Safety :=
  if addresses.isEmpty then .unsafeUrl
  else if addresses.any (!isPublicAddress ·) then .unsafeUrl
  else .safe (some addresses.dedup)

/-- `ensure_public_url`. -/
def ensurePublicUrl (hop : ℕ) (url : Text) : Safety :=
  match urlsplit net.tables url [] with
  | none => .unsafeUrl
  | some parsed =>
      match parsed.effectivePort with
      | none => .unsafeUrl
      | some port =>
          if parsed.scheme ≠ "http".toList && parsed.scheme ≠ "https".toList then .unsafeUrl
          else
            match parsed.hostname net.tables with
            | none => .unsafeUrl
            | some hostname =>
                let (username, password) := parsed.userinfo
                if username.any (!·.isEmpty) || password.any (!·.isEmpty) then .unsafeUrl
                else if net.allowPrivateNetworks then .safe none
                else
                  let host := net.tables.lower (hostname.reverse.dropWhile (· = '.')).reverse
                  if host = "localhost".toList || ".localhost".toList.isSuffixOf host then
                    .unsafeUrl
                  else
                    match net.tables.ipAddress host with
                    | some address => publicAddresses [address]
                    | none =>
                        match net.idna host with
                        | none => .unsafeUrl
                        | some name =>
                            match net.resolve hop name port with
                            | .failed => .unsafeUrl
                            | .cutShort => .raised
                            | .records addresses => publicAddresses addresses

/-! ## `HttpFetcher` -/

/-- `_pin` does not raise: the host of the URL has an ASCII name. -/
def pins (url : Text) (addresses : Option (List IpAddress)) : Bool :=
  match addresses with
  | none => true
  | some _ =>
      match urlsplit net.tables url [] with
      | none => false
      | some parsed => ((parsed.hostname net.tables).bind net.idna).isSome

/-- `_verify_connected`: the peer is one of the pinned addresses. -/
def verifyConnected (response : Response) (addresses : Option (List IpAddress)) : Bool :=
  match addresses with
  | none => true
  | some addresses =>
      match response.primaryIp with
      | none => false
      | some ip => addresses.any fun address => address.text = ip.text

/-- Where a redirect points to. -/
def redirectLocation (response : Response) : Option Text :=
  if redirectStatuses.contains response.status then response.location.filter (!·.isEmpty)
  else none

/-- A page that was fetched. -/
structure Fetched where
  status : ℤ
  content : List UInt8
  finalUrl : Text
  contentType : Text

/-- How a fetch ends: with a page, with `None` or with `UnsafeUrlError`. -/
inductive FetchResult
  | page (fetched : Fetched)
  | nothing
  | unsafeUrl

/-- `_body`: everything that arrives, but no more than is allowed. -/
def body (maxDecodedBytes : ℤ) (response : Response) : Option (List UInt8) :=
  response.content.filter fun content => decide ((content.length : ℤ) ≤ maxDecodedBytes)

/-- The loop of `_fetch` from a hop on, with redirects left to follow: the
requests it sends, and the result. -/
def fetchFrom (maxDecodedBytes : ℤ) : ℕ → ℕ → Text → List Text × FetchResult
  | left, hop, url =>
      match ensurePublicUrl net hop url with
      | .unsafeUrl => ([], .unsafeUrl)
      | .raised => ([], .nothing)
      | .safe addresses =>
          if !pins net url addresses then ([], .nothing)
          else
            match net.respond hop url with
            | none => ([url], .nothing)
            | some response =>
                if !verifyConnected response addresses then ([url], .unsafeUrl)
                else
                  match redirectLocation response with
                  | some location =>
                      match left with
                      | 0 => ([url], .nothing)
                      | left + 1 =>
                          match urljoin net.tables url location with
                          | none => ([url], .nothing)
                          | some next =>
                              let (requests, result) := fetchFrom maxDecodedBytes left (hop + 1) next
                              (url :: requests, result)
                  | none =>
                      match body maxDecodedBytes response with
                      | none => ([url], .nothing)
                      | some content =>
                          ([url], .page
                            { status := response.status, content, finalUrl := response.url
                              contentType := response.contentType })

/-- `fetch_http`, directly or through a proxy. -/
def fetchHttp (maxDecodedBytes : ℤ) (url : Text) : List Text × FetchResult :=
  fetchFrom net maxDecodedBytes maxRedirects 0 url

/-! ## `LocalAdapter` -/

/-- Scheme, host and effective port. -/
def originOf (url : Text) : Option (Text × Option Text × ℕ) :=
  (urlsplit net.tables url []).bind fun parsed =>
    parsed.effectivePort.map fun port => (parsed.scheme, parsed.hostname net.tables, port)

/-- `_same_origin`; `none` where a port is malformed. -/
def sameOrigin (left right : Text) : Option Bool := do
  let a ← originOf net left
  let b ← originOf net right
  return a = b

/-- A request; the proxy by its server. -/
structure ProviderRequest where
  url : Text
  maxDecodedBytes : Option ℤ := none
  proxy : Option Text := none

/-- A failure with its code, or an exception of another kind. -/
inductive Failure
  | provider (code : String) (retryable : Bool) (status : Option ℤ)
  | unsafeUrl
  | valueError
deriving DecidableEq

/-- `DEFAULT_MAX_DECODED_BYTES`. -/
def defaultMaxDecodedBytes : ℤ := 10 * 1024 * 1024

/-- `_acquire_http` up to the page it hands on. -/
def acquireHttp (request : ProviderRequest) (proxy : Option Text) :
    List Text × Except Failure Fetched :=
  if proxy = some [] then ([], .error (.provider "provider_request" false none))
  else
  let (requests, result) :=
    fetchHttp net (request.maxDecodedBytes.getD defaultMaxDecodedBytes) request.url
  (requests,
    match result with
    | .unsafeUrl => .error .unsafeUrl
    | .nothing => .error (.provider "transport_error" true none)
    | .page fetched =>
        let finalUrl := if fetched.finalUrl.isEmpty then request.url else fetched.finalUrl
        match sameOrigin net request.url finalUrl with
        | none => .error .valueError
        | some false => .error (.provider "policy_error" false (some fetched.status))
        | some true =>
            if ¬ (200 ≤ fetched.status ∧ fetched.status < 300) then
              .error (.provider "http_status_error"
                (fetched.status = 429 || decide (500 ≤ fetched.status)) (some fetched.status))
            else .ok { fetched with finalUrl })

/-- `acquire_owned_proxy`, given the proxy the pool leases. -/
def acquireOwnedProxy (request : ProviderRequest) (lease : Option Text) :
    List Text × Except Failure Fetched :=
  match lease with
  | none => ([], .error (.provider "provider_unavailable" true none))
  | some server => acquireHttp net request (some server)

/-- The HTTP routes of the adapter. -/
inductive HttpRoute
  | localHttp
  | ownedProxyHttp (lease : Option Text)

/-- An acquisition through one of them. -/
def acquire (route : HttpRoute) (request : ProviderRequest) :
    List Text × Except Failure Fetched :=
  match route with
  | .localHttp => acquireHttp net request request.proxy
  | .ownedProxyHttp lease => acquireOwnedProxy net request lease

end CrawlTrove.Acquisition
