import Mathlib

/-!
# URLs as Python splits and joins them

`urllib.parse` on lists of characters: `urlsplit` with the properties of its
result, and `urljoin` for the locations of redirects. What the functions ask of
Unicode and of the `ipaddress` module is a parameter. `none` stands for a
`ValueError`.
-/

namespace CrawlTrove.Web

abbrev Text := List Char

/-! ## Strings -/

/-- `str.partition` with a single character. -/
def partition (c : Char) (s : Text) : Text × Bool × Text :=
  (s.takeWhile (· ≠ c), s.contains c, (s.dropWhile (· ≠ c)).drop 1)

/-- `str.rpartition`. -/
def rpartition (c : Char) (s : Text) : Text × Bool × Text :=
  let (after, found, before) := partition c s.reverse
  (before.reverse, found, after.reverse)

def isAscii (c : Char) : Bool := c.toNat < 128

/-- `_WHATWG_C0_CONTROL_OR_SPACE`. -/
def isControlOrSpace (c : Char) : Bool := c.toNat ≤ 0x20

/-- `_UNSAFE_URL_BYTES_TO_REMOVE`. -/
def isUnsafe (c : Char) : Bool := c = '\t' || c = '\r' || c = '\n'

def strip (s : Text) : Text :=
  ((s.dropWhile isControlOrSpace).reverse.dropWhile isControlOrSpace).reverse

/-- The characters of `scheme_chars`. -/
def isSchemeChar (c : Char) : Bool := c.isAlphanum || c = '+' || c = '-' || c = '.'

def isHexDigit (c : Char) : Bool :=
  c.isDigit || ('a' ≤ c && c ≤ 'f') || ('A' ≤ c && c ≤ 'F')

/-! ## Addresses -/

/-- An `ipaddress` object: its text and what its properties say. -/
structure IpAddress where
  text : Text
  isV6 : Bool
  isGlobal : Bool
  isMulticast : Bool
  isReserved : Bool
  isUnspecified : Bool
  isLoopback : Bool
  isLinkLocal : Bool
  isPrivate : Bool
  isSiteLocal : Bool
  ipv4Mapped : Bool
  sixtofour : Bool
  teredo : Bool
  nat64 : Bool
deriving DecidableEq

/-- Unicode and `ipaddress`. Around a bracketed host `urlsplit` is that of Python 3.11.10;
newer patch releases refuse text beside the brackets. -/
structure Tables where
  lower : Text → Text
  nfkc : Text → Text
  ipAddress : Text → Option IpAddress

variable (tables : Tables)

/-! ## `urlsplit` -/

structure SplitResult where
  scheme : Text
  netloc : Text
  path : Text
  query : Text
  fragment : Text
deriving DecidableEq

/-- `_checknetloc`: no character becomes a delimiter under NFKC. -/
def checkNetloc (netloc : Text) : Bool :=
  netloc.all isAscii ||
    let n := netloc.filter fun c => c ∉ ['@', ':', '#', '?']
    tables.nfkc n = n || !(tables.nfkc n).any ['/', '?', '#', '@', ':'].contains

/-- `_check_bracketed_host`. -/
def checkBracketedHost (hostname : Text) : Bool :=
  match hostname with
  | 'v' :: rest =>
      let hex := rest.takeWhile isHexDigit
      match rest.drop hex.length with
      | '.' :: _ :: _ => !hex.isEmpty
      | _ => false
  | _ =>
      match tables.ipAddress hostname with
      | none => false
      | some address => address.isV6

/-- The scheme in front of the URL, or the default. -/
def splitScheme (scheme url : Text) : Text × Text :=
  let (front, found, rest) := partition ':' url
  match front with
  | c :: _ =>
      if found && c.isAlpha && front.all isSchemeChar then (front.map Char.toLower, rest)
      else (scheme, url)
  | [] => (scheme, url)

/-- The part of `urlsplit` behind the authority. -/
def splitRest (scheme netloc url : Text) : Option SplitResult :=
  let (url, _, fragment) := partition '#' url
  let (path, _, query) := partition '?' url
  if checkNetloc tables netloc then some { scheme, netloc, path, query, fragment } else none

def urlsplit (url : Text) (default : Text) : Option SplitResult :=
  let url := (url.dropWhile isControlOrSpace).filter (!isUnsafe ·)
  let default := (strip default).filter (!isUnsafe ·)
  let (scheme, url) := splitScheme default url
  match url with
  | '/' :: '/' :: rest =>
      let netloc := rest.takeWhile fun c => c ∉ ['/', '?', '#']
      let url := rest.drop netloc.length
      if netloc.contains '[' != netloc.contains ']' then none
      else if netloc.contains '[' &&
          !checkBracketedHost tables (partition ']' (partition '[' netloc).2.2).1 then none
      else splitRest tables scheme netloc url
  | url => splitRest tables scheme [] url

namespace SplitResult

/-- `_userinfo`: user name and password. -/
def userinfo (r : SplitResult) : Option Text × Option Text :=
  let (userinfo, found, _) := rpartition '@' r.netloc
  if found then
    let (username, found, password) := partition ':' userinfo
    (some username, if found then some password else none)
  else (none, none)

/-- `_hostinfo`: host and port as written. -/
def hostinfo (r : SplitResult) : Text × Option Text :=
  let (_, _, hostinfo) := rpartition '@' r.netloc
  let (_, found, bracketed) := partition '[' hostinfo
  let (hostname, port) :=
    if found then
      let (hostname, _, port) := partition ']' bracketed
      (hostname, (partition ':' port).2.2)
    else
      let (hostname, _, port) := partition ':' hostinfo
      (hostname, port)
  (hostname, if port.isEmpty then none else some port)

/-- `hostname`: in lower case but for a zone. -/
def hostname (r : SplitResult) : Option Text :=
  let (host, _) := r.hostinfo
  if host.isEmpty then none
  else
    let (host, found, zone) := partition '%' host
    some (tables.lower host ++ (if found then ['%'] else []) ++ zone)

/-- `port`, an error unless it is a number below 65536. -/
def port (r : SplitResult) : Option (Option ℕ) :=
  match r.hostinfo.2 with
  | none => some none
  | some digits =>
      let n := digits.foldl (fun n c => 10 * n + (c.toNat - '0'.toNat)) 0
      if digits.all Char.isDigit && n ≤ 65535 then some (some n) else none

/-- `port or (443 if scheme == "https" else 80)`; port 0 counts as none. -/
def effectivePort (r : SplitResult) : Option ℕ :=
  r.port.map fun port =>
    match port with
    | none | some 0 => if r.scheme = "https".toList then 443 else 80
    | some n => n

end SplitResult

/-! ## `urljoin` -/

/-- `uses_relative`. -/
def usesRelative : List Text :=
  ["", "ftp", "http", "gopher", "nntp", "imap", "wais", "file", "https", "shttp", "mms",
    "prospero", "rtsp", "rtsps", "rtspu", "sftp", "svn", "svn+ssh", "ws", "wss"].map String.toList

/-- `uses_netloc`. -/
def usesNetloc : List Text :=
  ["", "ftp", "http", "gopher", "nntp", "telnet", "imap", "wais", "file", "mms", "https", "shttp",
    "snews", "prospero", "rtsp", "rtsps", "rtspu", "rsync", "svn", "svn+ssh", "sftp", "nfs", "git",
    "git+ssh", "ws", "wss"].map String.toList

/-- `uses_params`. -/
def usesParams : List Text :=
  ["", "ftp", "hdl", "prospero", "http", "imap", "https", "shttp", "rtsp", "rtsps", "rtspu", "sip",
    "sips", "mms", "sftp", "tel"].map String.toList

/-- `_splitparams`: the parameters of the last segment. -/
def splitParams (path : Text) : Text × Text :=
  let (front, found, last) := rpartition '/' path
  let (segment, _, params) := partition ';' last
  (front ++ (if found then ['/'] else []) ++ segment, params)

/-- `urlparse`: the split URL and its parameters. -/
def urlparse (url default : Text) : Option (SplitResult × Text) :=
  (urlsplit tables url default).map fun r =>
    if usesParams.contains r.scheme && r.path.contains ';' then
      let (path, params) := splitParams r.path
      ({ r with path }, params)
    else (r, [])

def urlunsplit (r : SplitResult) : Text :=
  let url :=
    if !r.netloc.isEmpty || (!r.scheme.isEmpty && usesNetloc.contains r.scheme) ||
        r.path.take 2 = ['/', '/'] then
      '/' :: '/' :: r.netloc ++
        (if !r.path.isEmpty && r.path.take 1 ≠ ['/'] then '/' :: r.path else r.path)
    else r.path
  let url := if r.scheme.isEmpty then url else r.scheme ++ ':' :: url
  let url := if r.query.isEmpty then url else url ++ '?' :: r.query
  if r.fragment.isEmpty then url else url ++ '#' :: r.fragment

def urlunparse (r : SplitResult) (params : Text) : Text :=
  urlunsplit { r with path := if params.isEmpty then r.path else r.path ++ ';' :: params }

/-- The segments of the joined path before dots are resolved. -/
def joinSegments (basePath path : Text) : List Text :=
  if path.take 1 = ['/'] then path.splitOn '/'
  else
    let base := basePath.splitOn '/'
    let base := if base.getLast? = some [] then base else base.dropLast
    let segments := base ++ path.splitOn '/'
    -- Empty segments stay at both ends only.
    match segments with
    | [] => []
    | first :: rest =>
        first :: rest.dropLast.filter (!·.isEmpty) ++ rest.getLast?.toList

/-- `.` is left out, `..` removes the segment before it. -/
def resolveDots (segments : List Text) : List Text :=
  let resolved := segments.foldl (fun resolved segment =>
    if segment = ['.', '.'] then resolved.dropLast
    else if segment = ['.'] then resolved
    else resolved ++ [segment]) []
  if segments.getLast? = some ['.'] || segments.getLast? = some ['.', '.'] then resolved ++ [[]]
  else resolved

def urljoin (base url : Text) : Option Text :=
  if base.isEmpty then some url
  else if url.isEmpty then some base
  else do
    let (b, bparams) ← urlparse tables base []
    let (r, params) ← urlparse tables url b.scheme
    if r.scheme ≠ b.scheme || !usesRelative.contains r.scheme then some url
    else if usesNetloc.contains r.scheme && !r.netloc.isEmpty then some (urlunparse r params)
    else
      let netloc := if usesNetloc.contains r.scheme then b.netloc else r.netloc
      if r.path.isEmpty && params.isEmpty then
        let query := if r.query.isEmpty then b.query else r.query
        some (urlunparse { r with netloc, path := b.path, query } bparams)
      else
        let path := ['/'].intercalate (resolveDots (joinSegments b.path r.path))
        let path := if path.isEmpty then ['/'] else path
        some (urlunparse { r with netloc, path } params)

end CrawlTrove.Web
