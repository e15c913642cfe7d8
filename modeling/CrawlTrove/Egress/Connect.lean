import CrawlTrove.Egress.Gates
import CrawlTrove.Normalize.Rereading

/-!
# CONNECT requests

`parse_connect` (`app/egress_agent.py`) reads the one request an agent takes over a
connection. Beside it stands the grammar it is meant for: messages with a target and
fields, the hosts and ports an authority may name, and what a `Host` field denotes.
-/

namespace CrawlTrove.Egress.Connect

open Web (Text split splitCrlf hasCrlf joinWith partition rpartition isAscii encodeAscii decodeAscii)
open Normalize (Codecs toAscii acePrefix)
open Inet (Address isDigit parse4 parse6)

/-! ## The codec -/

/-- The tables, with the decoder of `punycode`. -/
structure IdnaTables extends Codecs where
  unpunycode : Text → Option Text

variable (tables : IdnaTables)

/-- `encodings.idna.ToUnicode`, on a label that is ASCII. -/
def toUnicode (label : Text) : Option Text :=
  if acePrefix <+: label then
    (tables.unpunycode (label.drop acePrefix.length)).bind fun result =>
      (toAscii tables.toCodecs result).bind fun encoded =>
        if decodeAscii encoded = some (label.map Char.toLower) then some result else none
  else some label

/-- `host.encode("ascii").decode("idna")`; without an `xn--` nothing is decoded. -/
def decodeIdna (host : Text) : Option Text :=
  if host.isEmpty then some []
  else if acePrefix <:+: host then
    let labels := split '.' host
    let trailingDot := labels.getLast? = some []
    ((if trailingDot then labels.dropLast else labels).mapM (toUnicode tables)).map fun result =>
      joinWith ['.'] result ++ if trailingDot then ['.'] else []
  else some host

/-! ## The module -/

/-- `MAX_CONNECT_HEADER_BYTES`. -/
def maxConnectHeaderBytes : ℕ := 16 * 1024

/-- The digits `int` reads at most. -/
def maxStrDigits : ℕ := 4300

/-- `_FORWARDED_HEADERS`. -/
def forwardedHeaders : List Text :=
  ["forwarded", "proxy-authorization", "proxy-connection", "via", "x-forwarded-for",
    "x-forwarded-host", "x-forwarded-proto", "x-real-ip"].map String.toList

/-- The headers of a body. -/
def bodyHeaders : List Text := ["content-length", "transfer-encoding"].map String.toList

inductive ConnectFailure
  | connectError (message : String)
  /-- `int` raises a `ValueError` that is not a `ConnectError`. -/
  | valueError
deriving DecidableEq

abbrev Result (α : Type) := Except ConnectFailure α

def refuse {α : Type} (message : String) : Result α := .error (.connectError message)

/-- `HOST_LABEL`. -/
def isHostLabel (label : Text) : Bool :=
  label.length ≤ 63 && label.head?.any Char.isAlphanum && label.getLast?.any Char.isAlphanum &&
    label.all fun c => c.isAlphanum || c = '-'

/-- `_normalise_host`. -/
def normaliseHost (host : Text) : Result Text :=
  if host.isEmpty || 253 < host.length || host.contains '%' then
    refuse "CONNECT authority must contain one hostname"
  else if ['/', '?', '#', '@'].any host.contains then
    refuse "CONNECT authority must not include URL components"
  else
    match Normalize.ipAddress host with
    | some address => .ok address.compressed
    | none =>
        if !host.all isAscii || (decodeIdna tables host).isNone then
          refuse "CONNECT hostname must be ASCII or IDNA"
        else if host.getLast? = some '.' || (split '.' host).any fun label => !isHostLabel label then
          refuse "CONNECT hostname is malformed"
        else .ok (host.map Char.toLower)

/-- `ipaddress.ip_address(host).version == 6`, where it does not raise. -/
def isVersion6 (host : Text) : Bool :=
  match Normalize.ipAddress host with
  | some ⟨.v6 _, _⟩ => true
  | _ => false

/-- The port of an authority. -/
def parsePort (allowedPorts : List ℕ) (portText : Text) : Result ℕ :=
  if portText.isEmpty || !portText.all isDigit then refuse "CONNECT port is malformed"
  else if maxStrDigits < portText.length then .error .valueError
  else
    let port := Nat.ofDigitChars 10 portText 0
    if allowedPorts.contains port then .ok port else refuse "CONNECT port is not allowed"

/-- The port is read first, then the host. -/
def parseHostAndPort (allowedPorts : List ℕ) (host portText : Text) : Result (Text × ℕ) := do
  let port ← parsePort allowedPorts portText
  let host ← normaliseHost tables host
  return (host, port)

/-- `_parse_authority`. -/
def parseAuthority (allowedPorts : List ℕ) (authority : Text) : Result (Text × ℕ) :=
  if authority.head? = some '[' then
    let (opened, closed, rest) := partition ']' authority
    if !closed || opened.length ≤ 1 || rest.head? ≠ some ':' then
      refuse "CONNECT IPv6 authority is malformed"
    else if rest.contains ']' then refuse "CONNECT IPv6 authority is malformed"
    else if !isVersion6 opened.tail then refuse "CONNECT IPv6 authority is malformed"
    else parseHostAndPort tables allowedPorts opened.tail rest.tail
  else if authority.count ':' ≠ 1 then refuse "CONNECT authority must include host and port"
  else
    let (host, _, portText) := rpartition ':' authority
    parseHostAndPort tables allowedPorts host portText

/-- `_parse_host_header`. -/
def parseHostHeader (allowedPorts : List ℕ) (authority : Text) (defaultPort : ℕ) :
    Result (Text × ℕ) :=
  if authority.head? = some '[' && authority.getLast? = some ']' then
    let host := authority.tail.dropLast
    if !isVersion6 host then refuse "CONNECT Host header is malformed"
    else (normaliseHost tables host).map (·, defaultPort)
  else if !authority.contains ':' then (normaliseHost tables authority).map (·, defaultPort)
  else parseAuthority tables allowedPorts authority

/-- The loop over the headers, which collects the values of `Host`. -/
def readHeaders (hostHeaders : List Text) : List Text → Result (List Text)
  | [] => .ok hostHeaders
  | line :: rest =>
      let (name, found, value) := partition ':' line
      let lowered := name.map Char.toLower
      if line.isEmpty || !found then refuse "CONNECT header is malformed"
      else if name.isEmpty || !name.all isAscii then refuse "CONNECT header is malformed"
      else if forwardedHeaders.contains lowered || "x-forwarded-".toList.isPrefixOf lowered then
        refuse "CONNECT forwarding headers are not allowed"
      else if bodyHeaders.contains lowered then refuse "CONNECT request bodies are not allowed"
      else
        readHeaders
          (if lowered = "host".toList then hostHeaders ++ [Corpus.trim value] else hostHeaders) rest

/-- What follows the request line. -/
def checkHeaders (allowedPorts : List ℕ) (host : Text) (port : ℕ) (lines : List Text) :
    Result (Text × ℕ) := do
  match ← readHeaders [] lines with
  | [value] =>
      let header ← parseHostHeader tables allowedPorts value port
      if header ≠ (host, port) then refuse "CONNECT Host header does not match authority"
      else return (host, port)
  | _ => refuse "CONNECT requires exactly one Host header"

/-- The request line and the headers. -/
def parseLines (allowedPorts : List ℕ) : List Text → Result (Text × ℕ)
  | [] | [] :: _ => refuse "CONNECT request line is missing"
  | first :: lines =>
      match split ' ' first with
      | [method, target, version] =>
          if method ≠ "CONNECT".toList || version ≠ "HTTP/1.1".toList then
            refuse "only HTTP/1.1 CONNECT is supported"
          else do
            let (host, port) ← parseAuthority tables allowedPorts target
            checkHeaders tables allowedPorts host port lines
      | _ => refuse "only HTTP/1.1 CONNECT is supported"

/-- `parse_connect`. -/
def parseConnect (allowedPorts : List ℕ) (request : List UInt8) : Result (Text × ℕ) :=
  if maxConnectHeaderBytes < request.length || !List.isSuffixOf [13, 10, 13, 10] request then
    refuse "CONNECT headers are malformed or too large"
  else
    match decodeAscii (request.take (request.length - 4)) with
    | none => refuse "CONNECT headers must be ASCII"
    | some headerBlock => parseLines tables allowedPorts (splitCrlf headerBlock)

/-- The request `MtlsConnectBridge` writes for an authority. -/
def connectRequest (host : Text) (port : ℕ) : List UInt8 :=
  let authority := Normalize.serializedHost host ++ ':' :: Nat.toDigits 10 port
  encodeAscii ("CONNECT ".toList ++ authority ++ " HTTP/1.1\r\nHost: ".toList ++ authority ++
    "\r\n\r\n".toList)

/-! ## The grammar -/

/-- A label of a host name: letters, digits, and hyphens inside. -/
structure IsLabel (label : Text) : Prop where
  size : label.length ≤ 63
  first : ∃ c, label.head? = some c ∧ c.isAlphanum = true
  last : ∃ c, label.getLast? = some c ∧ c.isAlphanum = true
  chars : ∀ c ∈ label, c.isAlphanum = true ∨ c = '-'

/-- A host name; its internationalized labels are valid. -/
structure IsName (host : Text) : Prop where
  labels : ∀ label ∈ split '.' host, IsLabel label
  decodes : (decodeIdna tables host).isSome = true

/-- What a host stands for, in brackets or not. -/
inductive Denotes : Bool → Text → Text → Prop
  | v6 {host : Text} {n : Fin (2 ^ 128)} (h : parse6 host = some n) :
      Denotes true host (Address.v6 n).text
  | v4 {host : Text} {n : Fin (2 ^ 32)} (h : parse4 host = some n) :
      Denotes false host (Address.v4 n).text
  | name {host : Text} (h : IsName tables host) (hname : parse4 host = none) :
      Denotes false host (host.map Char.toLower)

/-- A host of at most 253 characters, without a scope id and the marks of a URL. -/
structure IsHost (bracketed : Bool) (host canonical : Text) : Prop where
  size : host.length ≤ 253
  marks : ∀ c ∈ host, c ∉ ['%', '/', '?', '#', '@']
  denotes : Denotes tables bracketed host canonical

structure IsPort (allowedPorts : List ℕ) (digits : Text) (port : ℕ) : Prop where
  nonempty : digits ≠ []
  decimal : ∀ c ∈ digits, isDigit c = true
  value : Nat.ofDigitChars 10 digits 0 = port
  allowed : port ∈ allowedPorts

def bracket (bracketed : Bool) (host : Text) : Text :=
  if bracketed then '[' :: host ++ [']'] else host

/-- An authority and the host and port it names. -/
def IsAuthority (allowedPorts : List ℕ) (authority canonical : Text) (port : ℕ) : Prop :=
  ∃ bracketed host digits, authority = bracket bracketed host ++ ':' :: digits ∧
    IsHost tables bracketed host canonical ∧ IsPort allowedPorts digits port

/-- A value of `Host`; without a port it has the default one. -/
def IsHostValue (allowedPorts : List ℕ) (value : Text) (defaultPort : ℕ) (canonical : Text)
    (port : ℕ) : Prop :=
  (∃ bracketed host, value = bracket bracketed host ∧ IsHost tables bracketed host canonical ∧
    port = defaultPort) ∨ IsAuthority tables allowedPorts value canonical port

/-- A header line with a name in front of its first colon. -/
structure Field where
  name : Text
  value : Text
  named : name ≠ []
  colon : ':' ∉ name
  unbroken : hasCrlf (name ++ ':' :: value) = false

namespace Field

def line (f : Field) : Text := f.name ++ ':' :: f.value

def lowered (f : Field) : Text := f.name.map Char.toLower

def isHost (f : Field) : Bool := f.lowered = "host".toList

/-- Neither a forwarding header nor one of a body. -/
structure Permitted (f : Field) : Prop where
  listed : f.lowered ∉ forwardedHeaders
  forwarded : ¬ "x-forwarded-".toList <+: f.lowered
  body : f.lowered ∉ bodyHeaders

/-- The characters of an HTTP token. -/
def isTokenChar (c : Char) : Bool := c.isAlphanum || "!#$%&'*+-.^_`|~".toList.contains c

/-- The name is a token, and the value consists of characters a value may have. -/
def Clean (valueChar : Char → Prop) (f : Field) : Prop :=
  (∀ c ∈ f.name, isTokenChar c = true) ∧ ∀ c ∈ f.value, valueChar c

end Field

def requestLine (target : Text) : Text :=
  joinWith [' '] ["CONNECT".toList, target, "HTTP/1.1".toList]

/-- A request in its parts. -/
structure Message where
  target : Text
  fields : List Field
  spaceless : ' ' ∉ target
  unbroken : hasCrlf (requestLine target) = false

namespace Message

def lines (m : Message) : List Text := requestLine m.target :: m.fields.map Field.line

/-- The lines and one blank line. -/
def text (m : Message) : Text := joinWith ['\r', '\n'] m.lines ++ "\r\n\r\n".toList

/-- The message asks for this host and port. -/
structure Sound (allowedPorts : List ℕ) (m : Message) (host : Text) (port : ℕ) : Prop where
  target : IsAuthority tables allowedPorts m.target host port
  permitted : ∀ f ∈ m.fields, f.Permitted
  host : ∃ f, m.fields.filter Field.isHost = [f] ∧
    IsHostValue tables allowedPorts (Corpus.trim f.value) port host port

end Message

/-- The bytes are those of a sound message, up to the characters of its fields. -/
structure Reads (allowedPorts : List ℕ) (request : List UInt8) (m : Message) (host : Text)
    (port : ℕ) : Prop where
  size : request.length ≤ maxConnectHeaderBytes
  ascii : ∀ c ∈ m.text, c.toNat < 128
  bytes : request = encodeAscii m.text
  sound : m.Sound tables allowedPorts host port

/-- The requests that should be accepted. -/
def Grammar (allowedPorts : List ℕ) (valueChar : Char → Prop) (request : List UInt8) : Prop :=
  ∃ m host port, Reads tables allowedPorts request m host port ∧
    ∀ f ∈ m.fields, f.Clean valueChar

end CrawlTrove.Egress.Connect
