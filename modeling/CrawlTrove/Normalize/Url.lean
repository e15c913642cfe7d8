import CrawlTrove.Artifacts.References
import CrawlTrove.Egress.Gates
import CrawlTrove.Normalize.DotSegments
import CrawlTrove.Normalize.Scoped

/-!
# Normalized URLs

`normalize_url` and `origin_key` (`app/normalize.py`). URLs are split and joined as
`urllib.parse` does it, addresses read with their scope ids, and host names encoded by the
`idna` codec; what these ask of the tables of Unicode is a parameter.
-/

namespace CrawlTrove.Normalize

open Web (Text split joinWith partition SplitResult urlsplit urlunsplit isAscii encodeAscii
  decodeAscii)
open Artifacts (Bytes)

/-! ## The standard library -/

/-- What strings and codecs take from the tables of Unicode. -/
structure Codecs where
  lower : Text → Text
  casefold : Text → Text
  nfkc : Text → Text
  /-- `nameprep` and the `punycode` codec, on labels that are not ASCII. -/
  nameprep : Text → Option Text
  punycode : Text → Bytes
  unquotePlus : Text → Text

/-- `s.rstrip(c)`. -/
def rstrip (c : Char) (s : Text) : Text := (s.reverse.dropWhile (· = c)).reverse

/-- `len(s.encode("utf-8"))`. -/
def encodedLength (s : Text) : ℕ := (s.map Char.utf8Size).sum

/-- The tables with these addresses. -/
def Codecs.tables (codecs : Codecs) : Web.Tables where
  lower := codecs.lower
  nfkc := codecs.nfkc
  ipAddress s := (ipAddress s).map Egress.classifyScoped

/-- The length a label may have. -/
def sized (label : Bytes) : Option Bytes :=
  if 0 < label.length ∧ label.length < 64 then some label else none

/-- `ace_prefix`. -/
def acePrefix : Text := ['x', 'n', '-', '-']

/-- `encodings.idna.ToASCII`. -/
def toAscii (codecs : Codecs) (label : Text) : Option Bytes :=
  if label.all isAscii then sized (encodeAscii label)
  else (codecs.nameprep label).bind fun prepared =>
    if prepared.all isAscii then sized (encodeAscii prepared)
    else if acePrefix <+: prepared then none
    else sized (encodeAscii acePrefix ++ codecs.punycode prepared)

/-- `encodings.idna.dots`. -/
def isLabelDot (c : Char) : Bool := c ∈ ['.', '\u3002', '\uff0e', '\uff61']

/-- `host.encode("idna")`. -/
def encodeIdna (codecs : Codecs) (host : Text) : Option Bytes :=
  if host.all isAscii then
    let labels := split '.' host
    if (labels.dropLast.all fun label => 0 < label.length && label.length < 64) &&
        (labels.getLastD []).length < 64 then
      some (encodeAscii host)
    else none
  else
    let labels := split '.' (host.map fun c => if isLabelDot c then '.' else c)
    let trailingDot := labels.getLast? = some []
    ((if trailingDot then labels.dropLast else labels).mapM (toAscii codecs)).map fun parts =>
      [46].intercalate parts ++ if trailingDot then [46] else []

/-! ## The module -/

/-- `MAX_URL_BYTES`. -/
def maxUrlBytes : ℕ := 4096

/-- `_UNRESERVED`. -/
def isUnreserved (c : Char) : Bool := c.isAlphanum || c ∈ ['-', '.', '_', '~']

/-- A digit of `%02X`. -/
def upperHex (n : ℕ) : Char := (Nat.digitChar n).toUpper

/-- The text of an escape. -/
def escape (high low : ℕ) : Text :=
  let character := Char.ofNat (16 * high + low)
  if isUnreserved character then [character] else ['%', upperHex high, upperHex low]

/-- `_normalize_percent_encoding`. -/
def normalizePercentEncoding : Text → Text
  | '%' :: a :: b :: rest =>
      match Inet.hexValue? a, Inet.hexValue? b with
      | some high, some low => escape high low ++ normalizePercentEncoding rest
      | _, _ => '%' :: normalizePercentEncoding (a :: b :: rest)
  | c :: rest => c :: normalizePercentEncoding rest
  | [] => []

variable (codecs : Codecs)

/-- `_normalized_host`. -/
def normalizedHost (host : Text) : Option Text :=
  let host := codecs.lower (rstrip '.' host)
  if host.isEmpty then none
  else
    match ipAddress host with
    | some address => some address.compressed
    | none => ((encodeIdna codecs host).bind decodeAscii).map (·.map Char.toLower)

/-- `_serialized_host`. -/
def serializedHost (host : Text) : Text :=
  if host.contains ':' then '[' :: host ++ [']'] else host

/-- The default port of a scheme, if it has one. -/
def defaultPort (scheme : Text) : Option ℕ :=
  if scheme = "https".toList then some 443
  else if scheme = "http".toList then some 80
  else none

/-- The authority that is written. -/
def authority (scheme host : Text) (port : Option ℕ) : Text :=
  match port with
  | some n =>
      if some n = defaultPort scheme then serializedHost host
      else serializedHost host ++ ':' :: Nat.toDigits 10 n
  | none => serializedHost host

def normalizePath (path : Text) : Text :=
  let path := normalizePercentEncoding (if path.isEmpty then ['/'] else path)
  rstrip '/' ((removeDotSegments (path.length + 1) path).getD [])

def normalizeQuery (trackingParameters : List Text) (query : Text) : Text :=
  let parts := if query.isEmpty then [] else split '&' query
  let ignored := trackingParameters.map codecs.casefold
  let parts :=
    if ignored.isEmpty then parts
    else parts.filter fun part =>
      !ignored.contains (codecs.casefold (codecs.unquotePlus (partition '=' part).1))
  normalizePercentEncoding (joinWith ['&'] parts)

/-- The normalized URL; `none` where the original one is returned. -/
def normalizeParts (trackingParameters : List Text) (url : Text) : Option Text := do
  let parsed ← urlsplit codecs.tables url []
  let host ← normalizedHost codecs (parsed.hostname codecs.tables |>.getD [])
  if parsed.scheme.isEmpty then none
  else
    let port ← parsed.port
    some <| urlunsplit
      { scheme := parsed.scheme
        netloc := authority parsed.scheme host port
        path := normalizePath parsed.path
        query := normalizeQuery codecs trackingParameters parsed.query
        fragment := [] }

/-- `normalize_url`. -/
def normalizeUrl (trackingParameters : List Text) (url : Text) : Text :=
  if url.isEmpty || maxUrlBytes < encodedLength url then []
  else
    match normalizeParts codecs trackingParameters url with
    | some normalized => if maxUrlBytes < encodedLength normalized then [] else normalized
    | none => url

/-- `f"{scheme}://{_serialized_host(host)}:{port}"`. -/
def writeKey (scheme host : Text) (port : ℕ) : Text :=
  scheme ++ "://".toList ++ serializedHost host ++ ':' :: Nat.toDigits 10 port

/-- The key of a normalized URL. -/
def keyOf (normalized : Text) : Option Text := do
  let parsed ← urlsplit codecs.tables normalized []
  let host ← normalizedHost codecs (parsed.hostname codecs.tables |>.getD [])
  if parsed.scheme ≠ "http".toList ∧ parsed.scheme ≠ "https".toList then none
  else parsed.effectivePort.map (writeKey parsed.scheme host)

/-- `origin_key`. -/
def originKey (url : Text) : Text := (keyOf codecs (normalizeUrl codecs [] url)).getD []

end CrawlTrove.Normalize
